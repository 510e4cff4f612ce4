import UserSettings.Durability
import UserSettings.Ledger
import UserSettings.Visits

/-!
# The device cannot be told from the ledger

A running device is read as a ledger: RAM is the live copy, what a start would
read is the durable one, and the calls of settings_save_one are the attempts.
Each setter is the plan of its call carried out, so every request has the same
answer on both sides, whichever storage calls fail.
-/

namespace UserSettings.Refinement

open Bytes Settings Storage Store Effects Setters Reactions Load Operations Transition Records
open Cells Outcomes Moves Durability Validity Visits WriteThrough Machine Queries Ledger

/-- A device read as a ledger. -/
def ledgerOf (w : World) : Contents := ⟨ram w,stored w,w.saves⟩

/-- Storage as a medium. -/
def medium (env : Env) : ℕ → Bool := fun n => decide (env.saveResult n=0)

/-- The rules that a setup lays down. -/
def rulesOf (env : Env) (setup : Setup) : Rules := ⟨registered setup,env.defaultOverwrite⟩

variable {env : Env} {cb : Callbacks} {w : World} {s : UserSetting} {data : Mem} {len : ℕ}

/-- A half of a record holds some bytes exactly when its cell does. -/
theorem half_filled {size : ℕ} {buffer : Buffer size} {used : ℕ} {isSet : Bool}
    (hok : HalfOk buffer used isSet) (bytes : List UInt8) :
    (if isSet then some (buffer.bytes.take used) else none)=filled bytes ↔
      bytes=buffer.bytes.take used := by
  have hl := hok.len_le
  have hlength : (buffer.bytes.take used).length=used := by
    rw [List.length_take,buffer.length_eq]
    omega
  unfold filled
  cases isSet with
  | true =>
    have hne : buffer.bytes.take used≠[] := by
      intro h
      have hpos := hok.isSet_iff.mp rfl
      rw [h] at hlength
      exact absurd hlength (by rw [List.length_nil]; omega)
    rw [if_pos rfl]
    constructor
    · intro h
      by_cases hb : bytes=[]
      · rw [if_pos hb] at h
        cases h
      · rw [if_neg hb] at h
        exact (Option.some.inj h).symm
    · rintro rfl
      rw [if_neg hne]
  | false =>
    have hnil : buffer.bytes.take used=[] := by
      rw [hok.len_eq_zero rfl,List.take_zero]
    rw [hnil,if_neg (by simp)]
    constructor
    · intro h
      by_contra hb
      rw [if_neg hb] at h
      cases h
    · intro h
      rw [if_pos h]

/-- The code compares a value with the present one as the ledger does. -/
theorem sameValue_iff_filled (hok : RecordOk s) (hs : w.getByKey s.key=some s) :
    SameValue s data len ↔ ram w (.value,s.key)=filled (bytesAt data len) := by
  rw [sameValue_iff hok,ram_eq hs]
  exact (half_filled hok.value _).symm

/-- Likewise a default value. -/
theorem sameDefault_iff_filled (hok : RecordOk s) (hs : w.getByKey s.key=some s) :
    SameDefault s data len ↔ ram w (.default,s.key)=filled (bytesAt data len) := by
  rw [sameDefault_iff hok,ram_eq hs]
  exact (half_filled hok.default _).symm

/-- A flag is marked as the ledger marks it. -/
theorem markPlan_eq (hs : w.getByKey s.key=some s) (flag : Bool) :
    markPlan (ram w) s.key flag=
      if flag=s.hasChangedRecently then [] else [.put (.changed,s.key) (flagContent flag)] := by
  have hcontent : ram w (.changed,s.key)=flagContent s.hasChangedRecently := ram_eq hs .changed
  unfold markPlan
  rw [hcontent]
  cases flag <;> cases s.hasChangedRecently <;> rfl

/-- RAM after a write. -/
theorem ramSet_eq (w : World) (s : UserSetting) (data : Mem) (len : ℕ) :
    ramSet w s data len=(writeOf (.value,s.key) (bytesAt data len)).onLive (ram w) := by
  unfold ramSet writeOf
  simp only [bytesAt_eq_nil]
  split <;> rfl

/-- Storage after a write. -/
theorem storedSet_eq (w : World) (s : UserSetting) (data : Mem) (len : ℕ) :
    storedSet w s data len=(writeOf (.value,s.key) (bytesAt data len)).onDurable (stored w) := by
  unfold storedSet writeOf
  simp only [bytesAt_eq_nil]
  split <;> rfl

variable (env) in
/-- The number of storage calls after a set call that writes. -/
theorem set_saves (hq : Passive cb) (hs : w.getByKey s.key=some s) (hw : Writes s data len) :
    (prvUserSettingsSet env cb w s data len).1.saves=
      if env.saveResult w.saves=0 ∧ s.hasChangedRecently=false then w.saves+2 else w.saves+1 := by
  have hone := valueStored_saves env w s data len hq
  rw [userSettingsSet_passive hq hs hw]
  dsimp only
  by_cases hv : env.saveResult w.saves=0
  · rw [if_neg (not_not.mpr hv)]
    cases hc : s.hasChangedRecently with
    | true =>
      rw [if_pos rfl,if_neg (by simp)]
      exact hone
    | false =>
      have hboth : env.saveResult w.saves=0 ∧ false=false := ⟨hv,rfl⟩
      rw [if_neg (by simp)]
      dsimp only
      rw [if_pos hboth,saveOne_saves]
      exact congrArg Nat.succ hone
  · rw [if_pos hv,if_neg (fun h => hv h.1)]
    exact hone

/-- A set call that writes carries out its writes. -/
theorem set_performs (hq : Passive cb) (hs : w.getByKey s.key=some s) (hw : Writes s data len) :
    (ledgerOf (prvUserSettingsSet env cb w s data len).1,
        (prvUserSettingsSet env cb w s data len).2)=
      perform (medium env) (ledgerOf w)
        (.ok (writeOf (.value,s.key) (bytesAt data len)::markPlan (ram w) s.key true)) := by
  have hsaves := set_saves env hq hs hw
  have hout := set_outcome env hq hs hw
  rw [markPlan_eq hs]
  unfold ledgerOf perform
  dsimp only
  rw [hsaves,exec_cons]
  unfold medium attempt
  revert hout
  generalize ram (prvUserSettingsSet env cb w s data len).1=f
  generalize stored (prvUserSettingsSet env cb w s data len).1=g
  generalize (prvUserSettingsSet env cb w s data len).2=rc
  intro hout
  cases hout with
  | valueUnsaved hv => simp [hv,ramSet_eq]
  | flagged hv hc => simp [hv,hc,ramSet_eq,storedSet_eq]
  | flagUnsaved hv hc hf =>
    simp [hv,hc,hf,ramSet_eq,storedSet_eq,exec_cons,attempt,Write.onLive,flagContent]
  | saved hv hc hf =>
    simp [hv,hc,hf,ramSet_eq,storedSet_eq,exec_cons,attempt,Write.onLive,Write.onDurable,
      flagContent]

section Calls

variable (hp : PureRegistration (registration s)) (hok : RecordOk s) (hs : w.getByKey s.key=some s)
include hp hok hs

/-- A set call is the call of the ledger. -/
theorem set_refines (hq : Passive cb) (overwrite : Bool) :
    (ledgerOf (prvUserSettingsSet env cb w s data len).1,
        (prvUserSettingsSet env cb w s data len).2)=
      callOn (medium env) overwrite (ledgerOf w) (registration s) (.set (bytesAt data len)) := by
  have hsame : SameValue s data len ↔ ram w (.value,s.key)=filled (bytesAt data len) :=
    sameValue_iff_filled hok hs
  have haccepts := validates_eq_accepts hp data len
  have hplan : setPlan (registration s) (ram w) (bytesAt data len)=
      if s.maxSize<len then .error (-eNoMem) else if SameValue s data len then .ok []
      else if s.validates data len=false then .error (-eInval)
      else .ok (writeOf (.value,s.key) (bytesAt data len)::markPlan (ram w) s.key true) := by
    unfold setPlan
    rw [length_bytesAt,haccepts]
    simp only [hsame]
    rfl
  change _=perform _ _ (setPlan (registration s) (ram w) (bytesAt data len))
  rw [hplan]
  by_cases hw : Writes s data len
  · rw [if_neg (Nat.not_lt.mpr hw.fits),if_neg hw.differs,if_neg (by simp [hw.valid])]
    exact set_performs hq hs hw
  · rw [userSettingsSet_keeps hw]
    by_cases hf : s.maxSize<len
    · rw [if_pos hf,if_pos hf]
      rfl
    · rw [if_neg hf,if_neg hf]
      by_cases hd : SameValue s data len
      · rw [if_pos hd,if_pos hd]
        rfl
      · have hv : s.validates data len=false := by
          by_contra hv
          exact hw ⟨Nat.not_lt.mp hf,hd,by simpa using hv⟩
        rw [if_neg hd,if_neg hd,if_pos hv]
        rfl

omit hp hok in
/-- A default value that is written reaches both copies or the live one only. -/
theorem setDefault_performs (hw : WritesDefault env s data len) :
    (ledgerOf (prvUserSettingsSetDefault env cb w s data len).1,
        (prvUserSettingsSetDefault env cb w s data len).2)=
      perform (medium env) (ledgerOf w) (.ok [writeOf (.default,s.key) (bytesAt data len)]) := by
  have hsaves : (prvUserSettingsSetDefault env cb w s data len).1.saves=w.saves+1 := by
    rw [userSettingsSetDefault_writes hs hw]
    dsimp only
    rw [saveOne_saves]
    unfold defaultWritten
    split <;> rfl
  have hcode : (prvUserSettingsSetDefault env cb w s data len).2=
      if env.saveResult w.saves=0 then 0 else -eIo := by
    rw [userSettingsSetDefault_writes hs hw]
  have hcells : ram (prvUserSettingsSetDefault env cb w s data len).1=
        (writeOf (.default,s.key) (bytesAt data len)).onLive (ram w) ∧
      stored (prvUserSettingsSetDefault env cb w s data len).1=
        if env.saveResult w.saves=0 then
          (writeOf (.default,s.key) (bytesAt data len)).onDurable (stored w) else stored w := by
    unfold writeOf
    simp only [bytesAt_eq_nil]
    by_cases hn : len=0
    · subst hn
      rw [userSettingsSetDefault_writes hs hw]
      unfold defaultWritten
      rw [if_pos rfl,if_pos rfl]
      exact ⟨ram_saveOne .., stored_saveOne env hs .default data 0⟩
    · rw [if_neg hn]
      exact setDefault_cells hs hw hn
  unfold ledgerOf perform
  dsimp only
  rw [hsaves,hcode,hcells.1,hcells.2,exec_cons]
  unfold medium attempt
  by_cases hr : env.saveResult w.saves=0 <;> simp [hr]

/-- A set_default call is the call of the ledger. -/
theorem setDefault_refines :
    (ledgerOf (prvUserSettingsSetDefault env cb w s data len).1,
        (prvUserSettingsSetDefault env cb w s data len).2)=
      callOn (medium env) env.defaultOverwrite (ledgerOf w) (registration s)
        (.setDefault (bytesAt data len)) := by
  have hsame : SameDefault s data len ↔ ram w (.default,s.key)=filled (bytesAt data len) :=
    sameDefault_iff_filled hok hs
  have haccepts := validates_eq_accepts hp data len
  have hset : (ram w (.default,s.key)).isSome=s.defaultIsSet := by
    rw [ram_eq hs]
    dsimp only [content]
    cases s.defaultIsSet <;> rfl
  have hlocked : (!env.defaultOverwrite && s.defaultIsSet)=true ↔
      env.defaultOverwrite=false ∧ s.defaultIsSet=true := by
    cases env.defaultOverwrite <;> cases s.defaultIsSet <;> decide
  have hplan : setDefaultPlan env.defaultOverwrite (registration s) (ram w) (bytesAt data len)=
      if SameDefault s data len then .ok []
      else if (!env.defaultOverwrite && s.defaultIsSet)=true then .error (-eAlready)
      else if s.maxSize<len then .error (-eNoMem)
      else if s.validates data len=false then .error (-eInval)
      else .ok [writeOf (.default,s.key) (bytesAt data len)] := by
    have hkey : (registration s).key=s.key := rfl
    unfold setDefaultPlan
    rw [length_bytesAt,haccepts,hkey,hset]
    simp only [hsame,hlocked]
    rfl
  change _=perform _ _
    (setDefaultPlan env.defaultOverwrite (registration s) (ram w) (bytesAt data len))
  rw [hplan]
  by_cases hw : WritesDefault env s data len
  · have hopen : ¬(!env.defaultOverwrite && s.defaultIsSet)=true :=
      fun h => (locked_iff env s).mp h hw.unlocked
    rw [if_neg hw.differs,if_neg hopen,if_neg (Nat.not_lt.mpr hw.fits),if_neg (by simp [hw.valid])]
    exact setDefault_performs hs hw
  · rw [userSettingsSetDefault_keeps hw]
    by_cases hd : SameDefault s data len
    · rw [if_pos hd,if_pos hd]
      rfl
    · rw [if_neg hd,if_neg hd]
      by_cases ho : (!env.defaultOverwrite && s.defaultIsSet)=true
      · rw [if_pos ho,if_pos ho]
        rfl
      · rw [if_neg ho,if_neg ho]
        by_cases hf : s.maxSize<len
        · rw [if_pos hf,if_pos hf]
          rfl
        · have hv : s.validates data len=false := by
            by_contra hv
            exact hw ⟨hd,not_not.mp (fun k => ho ((locked_iff env s).mpr k)),Nat.not_lt.mp hf,
              by simpa using hv⟩
          rw [if_neg hf,if_neg hf,if_pos hv]
          rfl

omit hp hok in
/-- Setting a flag is the marking of the ledger. -/
theorem flag_performs (flag : Bool) :
    (ledgerOf (prvSetChangedRecentlyFlag env cb w s flag).1,
        (prvSetChangedRecentlyFlag env cb w s flag).2)=
      perform (medium env) (ledgerOf w) (.ok (markPlan (ram w) s.key flag)) := by
  obtain ⟨hram,hstored⟩ : ram (prvSetChangedRecentlyFlag env cb w s flag).1=_ ∧
      stored (prvSetChangedRecentlyFlag env cb w s flag).1=_ := flag_cells hs flag
  have hrun : prvSetChangedRecentlyFlag env cb w s flag=_ := setChangedRecentlyFlag_eq hs flag
  rw [markPlan_eq hs]
  by_cases hf : flag=s.hasChangedRecently
  · rw [if_pos hf] at hrun
    rw [if_pos hf,hrun]
    rfl
  · rw [if_neg hf] at hrun
    have hsaves : (prvSetChangedRecentlyFlag env cb w s flag).1.saves=w.saves+1 := by
      rw [hrun]
      exact saveOne_saves ..
    have hcode : (prvSetChangedRecentlyFlag env cb w s flag).2=
        if env.saveResult w.saves=0 then 0 else -eIo := by rw [hrun]
    unfold ledgerOf perform
    rw [if_neg hf]
    dsimp only
    rw [hsaves,hcode,hram,hstored,exec_cons]
    unfold medium attempt
    by_cases hr : env.saveResult w.saves=0 <;> simp [hr,hf,Write.onLive,Write.onDurable]

/-- Restoring a setting is the call of the ledger. -/
theorem restore_refines (hq : Passive cb) (overwrite : Bool) :
    ledgerOf (prvSettingsRestore env cb w s)=
      (callOn (medium env) overwrite (ledgerOf w) (registration s) .restoreDefault).1 := by
  have hvalue : (ram w (.value,s.key)).isSome=s.isSet := by
    rw [ram_eq hs]
    dsimp only [content]
    cases s.isSet <;> rfl
  have hdefault : (ram w (.default,s.key)).getD []=
      bytesAt s.defaultData.mem s.defaultDataLen := by
    rw [s.defaultData.bytesAt_mem hok.default.len_le,ram_eq hs]
    dsimp only [content]
    cases hd : s.defaultIsSet with
    | true => rfl
    | false =>
      rw [hok.default.len_eq_zero hd]
      rfl
  have hcall : (ledgerOf (prvUserSettingsSet env cb w s s.defaultData.mem s.defaultDataLen).1,
      (prvUserSettingsSet env cb w s s.defaultData.mem s.defaultDataLen).2)=
        callOn (medium env) overwrite (ledgerOf w) (registration s)
          (.set (bytesAt s.defaultData.mem s.defaultDataLen)) := set_refines hp hok hs hq overwrite
  change _=(perform (medium env) (ledgerOf w) (if (ram w (.value,s.key)).isSome=true then
    setPlan (registration s) (ram w) ((ram w (.default,s.key)).getD []) else .ok [])).1
  rw [hvalue,hdefault]
  unfold prvSettingsRestore
  cases s.isSet with
  | true => exact congrArg Prod.fst hcall
  | false => rfl

end Calls

variable {setup : Setup}

/-- A device that an application can make requests of. -/
structure Serving (setup : Setup) (w : World) : Prop where
  /-- The device runs. -/
  running : Running setup w
  /-- The module is initialized. -/
  isInited : w.isInited=true

/-- A start leads to such a device. -/
theorem serving_of_booted {next : World} (h : Booted setup w next) : Serving setup next :=
  ⟨running_of_booted h,h.isInited⟩

/-- Effects keep it one. -/
theorem Serving.effects {next : World} {allow : Allowance} (h : Serving setup w)
    (he : EffectSeq env allow w next) : Serving setup next :=
  ⟨h.running.effects he,he.sameSetup.isInited.trans h.isInited⟩

/-- A named setting is registered as the rules have it. -/
theorem find_rules (hw : Serving setup w) (target : Target) :
    (w.find target).map registration=(rulesOf env setup).find target := by
  have hregs : registrations w=registered setup := hw.running.regs
  unfold Rules.find rulesOf World.find
  cases target with
  | key key =>
    have hfind := find_registrations w key
    rw [hregs] at hfind
    exact hfind
  | id id =>
    dsimp only
    rw [←hregs]
    unfold registrations
    rw [List.find?_map]
    rfl

/-- The callbacks of a pure setup are pure in every record. -/
theorem Serving.pure (hpure : PureSetup setup) (hw : Serving setup w)
    (hs : w.getByKey s.key=some s) : PureRegistration (registration s) := by
  have hmem : registration s∈registered setup := by
    rw [←hw.running.regs]
    exact List.mem_map_of_mem (getByKey_some hs).1
  obtain ⟨r,hr,hsame⟩ := List.mem_map.mp hmem
  intro validate hv
  rw [←hsame] at hv
  exact hpure r hr validate hv

/-- A question to a setting that the ledger answers alike. -/
theorem asked_refines {β : Type} (hw : Serving setup w) {target : Target}
    {f : UserSetting → β} {answer : β → Answer} {expected : Registration → Answer}
    (h : ∀ s,w.getByKey s.key=some s → answer (f s)=expected (registration s)) :
    (asked w (withSetting w target f) answer).map (Prod.map ledgerOf id)=
      about (rulesOf env setup) (ledgerOf w) target expected := by
  unfold asked withSetting about
  rw [if_pos hw.running.isLoaded,←find_rules hw]
  cases hs : w.find target with
  | none => rfl
  | some s =>
    have he := h s (getByKey_of_find hs)
    change some (ledgerOf w,answer (f s))=some (ledgerOf w,expected (registration s))
    rw [he]

/-- A call on a setting that the ledger carries out alike. -/
theorem called_refines (hw : Serving setup w) {target : Target} {f : UserSetting → World×ℤ}
    {expected : Registration → Contents×Answer}
    (h : ∀ s,w.getByKey s.key=some s →
      (ledgerOf (f s).1,Answer.code (f s).2)=expected (registration s)) :
    (called (withSetting w target f)).map (Prod.map ledgerOf id)=
      ((rulesOf env setup).find target).map expected := by
  unfold called withSetting
  rw [if_pos hw.running.isLoaded,←find_rules hw]
  cases hs : w.find target with
  | none => rfl
  | some s => exact congrArg some (h s (getByKey_of_find hs))

/-- Visits of all settings are the calls of the ledger on all of them. -/
theorem forEach_refines (hw : Serving setup w) {f : World → UserSetting → World} (call : Call)
    (heffects : ∀ u t,u.getByKey t.key=some t → EffectSeq env anyValue u (f u t))
    (hf : ∀ u t,Serving setup u → u.getByKey t.key=some t → ledgerOf (f u t)=
      (callOn (medium env) env.defaultOverwrite (ledgerOf u) (registration t) call).1) :
    ledgerOf (forEachSetting f w)=
      callOnAll (medium env) (rulesOf env setup) (ledgerOf w) call := by
  have hfold : ∀ (items : List UserSetting) (u : World),Serving setup u →
      (∀ t∈items,∃ now,u.getByKey t.key=some now ∧ registration now=registration t) →
      ledgerOf (items.foldl (fun u t => f u (u.deref t)) u)=
        (items.map registration).foldl (fun t r =>
          (callOn (medium env) env.defaultOverwrite t r call).1) (ledgerOf u) := by
    intro items
    induction items with
    | nil => exact fun _ _ _ => rfl
    | cons t rest ih =>
      intro u hu hitems
      obtain ⟨now,hnow,hreg⟩ := hitems t List.mem_cons_self
      have hself : u.getByKey now.key=some now := by rw [key_of_getByKey hnow,hnow]
      have heff := heffects u now hself
      rw [List.map_cons,List.foldl_cons,List.foldl_cons,deref_eq hnow,←hreg,
        ←hf u now hu hself]
      refine ih _ (hu.effects heff) ?_
      intro x hx
      obtain ⟨old,hold,hsame⟩ := hitems x (List.mem_cons_of_mem t hx)
      obtain ⟨new,hnew,hkept⟩ := getByKey_of_registrations heff.sameSetup.regs hold
      exact ⟨new,hnew,hkept.trans hsame⟩
  unfold callOnAll rulesOf
  dsimp only
  rw [←hw.running.regs]
  exact hfold w.list.items w hw fun t ht => ⟨t,getByKey_of_mem ht,rfl⟩

/-- The marked settings of the ledger are the flagged records. -/
theorem marked_eq (hw : Serving setup w) : marked (rulesOf env setup) (ram w)=
    (w.list.items.filter UserSetting.hasChangedRecently).map registration := by
  unfold marked rulesOf
  dsimp only
  rw [←hw.running.regs]
  unfold registrations
  rw [List.filter_map]
  congr 1
  apply List.filter_congr
  intro s hs
  have hcontent : ram w (.changed,s.key)=flagContent s.hasChangedRecently :=
    ram_eq (getByKey_of_mem hs) .changed
  change (ram w (.changed,s.key)).isSome=_
  rw [hcontent]
  cases s.hasChangedRecently <;> rfl

/-- A start is a restart of the ledger. -/
theorem booted_restart {next : World} (hw : Serving setup w) (h : Booted setup w next) :
    ledgerOf next=restart (ledgerOf w) := by
  have hram := booted_ram h
  have hstored := booted_stored h hw.running.regs
  unfold ledgerOf restart
  rw [hram,hstored,h.saves]

section Requests

variable (hw : Serving setup w)
include hw

/-- A request that only asks leaves the device serving; the others are effects
or a start. -/
theorem serving_step {request : Request (Mem×ℕ)} {next : World} {answer : Answer}
    (h : serve env setup w request=some (next,answer)) : Serving setup next := by
  have hcalled : ∀ op,called (StoreOp.exec env w op)=some (next,answer) → Serving setup next := by
    intro op hc
    obtain ⟨⟨last,ret⟩,hrun,he⟩ := Option.map_eq_some_iff.mp hc
    cases he
    exact hw.effects (step_effects (step_of_ok op (toOption_eq_some.mp hrun)))
  have hasked : ∀ {β : Type} {result : Except Fault β} {read : β → Answer},
      asked w result read=some (next,answer) → Serving setup next := by
    intro β result read ha
    obtain ⟨b,_,he⟩ := Option.map_eq_some_iff.mp ha
    cases he
    exact hw
  cases request with
  | set | setDefault | restoreDefault | restoreDefaults | setChanged | clearChangedOne
  | clearChanged => exact hcalled _ h
  | get | getDefault | isSet | hasDefault | getMaxLen | getType | validate | «exists» =>
    exact hasked h
  | anyChanged | nextChanged =>
    cases h
    exact hw
  | reboot =>
    obtain ⟨last,hrun,he⟩ := Option.map_eq_some_iff.mp h
    cases he
    exact serving_of_booted (reboot_ok (toOption_eq_some.mp hrun))

/-- Every request of a device that can start is that of the ledger. -/
theorem serve_match (hquiet : ∀ n,env.react n=[]) (hpure : PureSetup setup)
    {before started : World} (hboot : reboot env setup before=.ok started)
    (request : Request (Mem×ℕ)) :
    (serve env setup w request).map (Prod.map ledgerOf id)=
      ledger (medium env) (rulesOf env setup) (ledgerOf w)
        (request.map fun data => bytesAt data.1 data.2) := by
  have hq := passive_callbacks hquiet
  have hrecord : ∀ s,w.getByKey s.key=some s → RecordOk s :=
    fun s hs => hw.running.records.getByKey hs
  have hpures : ∀ s,w.getByKey s.key=some s → PureRegistration (registration s) :=
    fun s hs => hw.pure hpure hs
  have hisSome : ∀ (isSet : Bool) (bytes : List UInt8),
      (if isSet then some bytes else none).isSome=isSet := by
    intro isSet bytes
    cases isSet <;> rfl
  cases request with
  | set target data =>
    refine called_refines hw fun s hs => ?_
    exact congrArg (fun r : Contents×ℤ => (r.1,Answer.code r.2))
      (set_refines (hpures s hs) (hrecord s hs) hs hq env.defaultOverwrite)
  | setDefault target data =>
    refine called_refines hw fun s hs => ?_
    exact congrArg (fun r : Contents×ℤ => (r.1,Answer.code r.2))
      (setDefault_refines (hpures s hs) (hrecord s hs) hs)
  | restoreDefault target =>
    refine called_refines hw fun s hs => ?_
    exact congrArg (fun t : Contents => (t,Answer.code 0))
      (restore_refines (hpures s hs) (hrecord s hs) hs hq env.defaultOverwrite)
  | restoreDefaults =>
    have hall : ledgerOf (forEachSetting (prvSettingsRestore env env.callbacks) w)=_ :=
      forEach_refines hw .restoreDefault (fun u t ht => visit_effects .restoreDefaults ht)
        (fun u t hu ht => restore_refines (hu.pure hpure ht) (hu.running.records.getByKey ht) ht hq
          env.defaultOverwrite)
    change (called ((userSettingsRestoreDefaults env w).map fun next => (next,(0 : ℤ)))).map _=_
    unfold userSettingsRestoreDefaults
    rw [if_pos hw.running.isLoaded]
    exact congrArg (fun t : Contents => some (t,Answer.code 0)) hall
  | setChanged target =>
    change (called ((userSettingsSetChanged env w target).map fun next => (next,(0 : ℤ)))).map _=_
    unfold userSettingsSetChanged
    rw [withSetting_result]
    refine called_refines hw fun s hs => ?_
    exact congrArg (fun r : Contents×ℤ => (r.1,Answer.code 0)) (flag_performs hs true)
  | clearChangedOne target =>
    change (called ((userSettingsClearChangedOne env w target).map
      fun next => (next,(0 : ℤ)))).map _=_
    unfold userSettingsClearChangedOne
    rw [withSetting_result]
    refine called_refines hw fun s hs => ?_
    exact congrArg (fun r : Contents×ℤ => (r.1,Answer.code 0)) (flag_performs hs false)
  | clearChanged =>
    have hall : ledgerOf (forEachSetting
        (fun u t => (prvSetChangedRecentlyFlag env env.callbacks u t false).1) w)=_ :=
      forEach_refines hw .clearChanged (fun u t ht => setChangedRecentlyFlag_effects ht false)
        (fun u t _ ht => congrArg Prod.fst (flag_performs ht false))
    change (called ((userSettingsClearChanged env w).map fun next => (next,(0 : ℤ)))).map _=_
    unfold userSettingsClearChanged
    rw [if_pos hw.running.isLoaded]
    exact congrArg (fun t : Contents => some (t,Answer.code 0)) hall
  | get target =>
    refine asked_refines hw fun s hs => ?_
    have hvalue : ram w (.value,s.key)=content s .value := ram_eq hs .value
    have hdefault : ram w (.default,s.key)=content s .default := ram_eq hs .default
    have hbytes := s.data.bytesAt_mem (hrecord s hs).value.len_le
    have hdbytes := s.defaultData.bytesAt_mem (hrecord s hs).default.len_le
    change Answer.bytes _=Answer.bytes ((ram w (.value,s.key)).or (ram w (.default,s.key)))
    rw [hvalue,hdefault]
    unfold prvUserSettingGet shown content
    cases s.isSet with
    | true => exact congrArg (fun b => Answer.bytes (some b)) hbytes
    | false =>
      cases s.defaultIsSet with
      | true => exact congrArg (fun b => Answer.bytes (some b)) hdbytes
      | false => rfl
  | getDefault target =>
    refine asked_refines hw fun s hs => ?_
    have hdefault : ram w (.default,s.key)=content s .default := ram_eq hs .default
    have hdbytes := s.defaultData.bytesAt_mem (hrecord s hs).default.len_le
    change Answer.bytes _=Answer.bytes (ram w (.default,s.key))
    rw [hdefault]
    unfold prvUserSettingGetDefault shown content
    cases s.defaultIsSet with
    | true => exact congrArg (fun b => Answer.bytes (some b)) hdbytes
    | false => rfl
  | isSet target =>
    refine asked_refines hw fun s hs => ?_
    change Answer.truth s.isSet=Answer.truth (ram w (.value,s.key)).isSome
    rw [ram_eq hs,content,hisSome]
  | hasDefault target =>
    refine asked_refines hw fun s hs => ?_
    change Answer.truth s.defaultIsSet=Answer.truth (ram w (.default,s.key)).isSome
    rw [ram_eq hs,content,hisSome]
  | getMaxLen target => exact asked_refines hw fun _ _ => rfl
  | getType target => exact asked_refines hw fun _ _ => rfl
  | validate target data =>
    have hjudge : userSettingsValidate w target data.1 data.2=
        withSetting w target fun s => s.validates data.1 data.2 := by
      unfold userSettingsValidate withSetting
      exact (if_pos hw.isInited).trans (if_pos hw.running.isLoaded).symm
    change (asked w (userSettingsValidate w target data.1 data.2) Answer.truth).map _=_
    rw [hjudge]
    exact asked_refines hw fun s hs =>
      congrArg Answer.truth (validates_eq_accepts (hpures s hs) data.1 data.2)
  | «exists» target =>
    change (asked w (userSettingsExists w target) Answer.truth).map _=
      some (ledgerOf w,Answer.truth ((rulesOf env setup).find target).isSome)
    unfold userSettingsExists
    rw [if_pos hw.running.isLoaded,←find_rules hw,Option.isSome_map]
    rfl
  | anyChanged =>
    change some (ledgerOf w,Answer.truth (Iteration.userSettingsAnyChanged w.list))=
      some (ledgerOf w,Answer.truth !(marked (rulesOf env setup) (ram w)).isEmpty)
    rw [Iteration.anyChanged_eq,marked_eq hw,List.isEmpty_map]
    congr 3
    induction w.list.items with
    | nil => rfl
    | cons s rest ih =>
      rw [List.any_cons,List.filter_cons,ih]
      cases s.hasChangedRecently <;> rfl
  | nextChanged times =>
    change some (ledgerOf w,Answer.settings (Iteration.results
        (Iteration.userSettingsIterNextChanged w.list) times Iteration.userSettingsListIterStart))=
      some (ledgerOf w,Answer.settings ((List.range times).map fun i =>
        ((marked (rulesOf env setup) (ram w)).map fun r => (r.key,r.id))[i]?))
    rw [Iteration.results_nextChanged,marked_eq hw,List.map_map]
    rfl
  | reboot =>
    obtain ⟨next,hrun,hbooted⟩ : ∃ next,reboot env setup w=.ok next ∧ Booted setup w next :=
      reboot_again hboot
    change ((reboot env setup w).toOption.map fun next => (next,Answer.started)).map _=_
    rw [hrun]
    exact congrArg (fun t : Contents => some (t,Answer.started)) (booted_restart hw hbooted)

end Requests

/-- For every setup with validate callbacks that look at the given bytes only,
any entries at the first start, and every list of requests (calls with data of
any length, questions, starts), with storage failing at any calls and callbacks
that only look: the device and the ledger give the same answers, stop at the
same request if one names no setting, and end in states that match. -/
theorem device_refines_ledger (env : Env) (hquiet : ∀ n,env.react n=[]) (setup : Setup)
    (hpure : PureSetup setup) (nvs : Entries) (start : World)
    (hboot : boot env setup nvs=.ok start) (requests : List (Request (Mem×ℕ))) :
    (observe (serve env setup) start requests).map (Prod.map ledgerOf id)=
      observe (ledger (medium env) (rulesOf env setup)) (ledgerOf start)
        (requests.map (Request.map fun data => bytesAt data.1 data.2)) :=
  observe_refines ledgerOf (Request.map fun data => bytesAt data.1 data.2)
    (fun _ _ _ _ hw h => serving_step hw h)
    (fun _ request hw => serve_match hw hquiet hpure hboot request)
    (serving_of_booted (reboot_ok hboot))

/-- A device without validate callbacks has pure ones. -/
theorem pure_device (type : UserSettingType) (size : ℕ) :
    PureSetup (Operations.device type size none none) := by
  intro r hr validate hv
  rw [List.mem_singleton.mp hr] at hv
  cases hv

/-- The second storage call of a device with a write-once default fails. -/
def secondFails : Env := ⟨fun n => if n=1 then -5 else 0,false,true,fun _ => []⟩

/-- A device with a failing call against its ledger; the answers are computed. -/
theorem device_refines_ledger_on_device :
    let setup : Setup := Operations.device .u8 0 none none
    let requests : List (Request (Mem×ℕ)) := [.setDefault (.key keyA) (memOf [7],1),
      .setDefault (.id 1) (memOf [8],1),.get (.id 1),.set (.key keyA) (memOf [5],1),
      .isSet (.key keyA),.set (.key keyA) (memOf [5,5],2),.get (.key keyA),.reboot,.get (.key keyA)]
    ∃ start,boot secondFails setup ∅=.ok start ∧
      (observe (serve secondFails setup) start requests).map Prod.snd=
        some [.code 0,.code (-120),.bytes (some [7]),.code (-5),.truth true,.code (-12),
          .bytes (some [5]),.started,.bytes (some [7])] ∧
      (observe (serve secondFails setup) start requests).map (Prod.map ledgerOf id)=
        observe (ledger (medium secondFails) (rulesOf secondFails setup)) (ledgerOf start)
          (requests.map (Request.map fun data => bytesAt data.1 data.2)) :=
  ⟨_,rfl,rfl,device_refines_ledger secondFails (fun _ => rfl) _ (pure_device .u8 0) ∅ _ rfl _⟩

end UserSettings.Refinement
