import UserSettings.Refinement
import UserSettings.Success

/-!
# Which runs only report success for what is stored

A short cut is safe as long as the cells that it skips were not left behind by
a storage call that failed, or by a write of no bytes, since they were last
stored. Along a run these cells are known from its calls and the results of
its storage calls alone. Every success of a run in which no call skips one of
them is durable.
-/

namespace UserSettings.Retries

open Bytes Settings Storage Store Effects Setters Reactions Load Records Cells Outcomes
open Operations Transition Durability WriteThrough Ledger Refinement Success

/-- The writes that setting a value attempts. -/
def valuePlan (w : World) (s : UserSetting) (data : Mem) (len : ℕ) :
    List (Write Cell (List UInt8)) :=
  if Writes s data len then
    writeOf (.value,s.key) (bytesAt data len)::markPlan (ram w) s.key true
  else []

/-- The writes that the visit of a record attempts. -/
def visitPlan (env : Env) (op : StoreOp) (w : World) (s : UserSetting) :
    List (Write Cell (List UInt8)) :=
  match op with
  | .set _ data len => valuePlan w s data len
  | .setDefault _ data len =>
    if WritesDefault env s data len then [writeOf (.default,s.key) (bytesAt data len)] else []
  | .restoreDefaults | .restoreDefault _ =>
    if s.isSet then valuePlan w s s.defaultData.mem s.defaultDataLen else []
  | .setChanged _ => markPlan (ram w) s.key true
  | .clearChangedOne _ | .clearChanged => markPlan (ram w) s.key false

/-- A store together with the cells that its storage lags behind in. -/
abbrev Watched := World×(Cell → Bool)

/-- The visit of a record. -/
def watchedVisit (env : Env) (op : StoreOp) (state : Watched) (s : UserSetting) : Watched :=
  (visit env op state.1 s,
    lagging (medium env) (ledgerOf state.1) state.2 (visitPlan env op state.1 s))

/-- The cells that storage lags behind in after an operation. -/
def laggingAfter (env : Env) (state : Watched) (op : StoreOp) : Cell → Bool :=
  match target? op with
  | some target =>
    match state.1.find target with
    | some s => (watchedVisit env op state s).2
    | none => state.2
  | none => (state.1.list.items.foldl
      (fun state s => watchedVisit env op state (state.1.deref s)) state).2

/-- A step that keeps the marks and the cells that storage lags behind in. -/
def watchedStep (env : Env) (state : (World×Marks)×(Cell → Bool)) (op : StoreOp) :
    Option ((World×Marks)×(Cell → Bool)) :=
  (markedStep env state.1 op).map fun next => (next,laggingAfter env (state.1.1,state.2) op)

/-- The call skips nothing that storage lags behind in: the value and the flag
if it sets the present value, the flag if it sets another one, the default
value if it sets the present one. -/
def SkipsStored (state : (World×Marks)×(Cell → Bool)) (op : StoreOp) : Prop :=
  match op with
  | .set target data len => ∀ s,state.1.1.find target=some s →
      state.2 (.changed,s.key)=false ∧ (SameValue s data len → state.2 (.value,s.key)=false)
  | .setDefault target data len => ∀ s,state.1.1.find target=some s →
      SameDefault s data len → state.2 (.default,s.key)=false
  | .restoreDefaults | .restoreDefault _ | .setChanged _ | .clearChangedOne _ | .clearChanged =>
    True

variable {env : Env} {w next : World} {s : UserSetting} {data : Mem} {len : ℕ} {marks : Marks}
  {behind : Cell → Bool}

section Visit

/-- Setting a value carries out its plan. -/
theorem set_plan (hq : Passive env.callbacks) (hs : w.getByKey s.key=some s) :
    ledgerOf (prvUserSettingsSet env env.callbacks w s data len).1=
      (exec (medium env) (ledgerOf w) (valuePlan w s data len)).1 := by
  unfold valuePlan
  by_cases hw : Writes s data len
  · rw [if_pos hw]
    exact congrArg Prod.fst (set_performs hq hs hw)
  · rw [if_neg hw,userSettingsSet_keeps hw]
    rfl

/-- A visit carries out its plan. -/
theorem visit_plan (hq : Passive env.callbacks) (op : StoreOp) (hs : w.getByKey s.key=some s) :
    ledgerOf (visit env op w s)=
      (exec (medium env) (ledgerOf w) (visitPlan env op w s)).1 := by
  have hrestore : ledgerOf (prvSettingsRestore env env.callbacks w s)=
      (exec (medium env) (ledgerOf w)
        (if s.isSet then valuePlan w s s.defaultData.mem s.defaultDataLen else [])).1 := by
    unfold prvSettingsRestore
    split
    · exact set_plan hq hs
    · rfl
  cases op with
  | set => exact set_plan hq hs
  | setDefault _ data len =>
    unfold visit visitPlan
    dsimp only
    by_cases hw : WritesDefault env s data len
    · rw [if_pos hw]
      exact congrArg Prod.fst (setDefault_performs hs hw)
    · rw [if_neg hw,userSettingsSetDefault_keeps hw]
      rfl
  | restoreDefaults => exact hrestore
  | restoreDefault => exact hrestore
  | setChanged => exact congrArg Prod.fst (flag_performs hs true)
  | clearChangedOne => exact congrArg Prod.fst (flag_performs hs false)
  | clearChanged => exact congrArg Prod.fst (flag_performs hs false)

/-- The cell of a write of bytes. -/
@[simp] theorem writeOf_cell (cell : Cell) (bytes : List UInt8) :
    (writeOf cell bytes).cell=cell := by
  unfold writeOf
  split <;> rfl

/-- The cells of a mark. -/
theorem markPlan_cells (live : Copy) (key : CString) (flag : Bool) :
    ∀ cell∈(markPlan live key flag).map Write.cell,cell=(.changed,key) := by
  intro cell hcell
  unfold markPlan at hcell
  split at hcell
  · cases hcell
  · exact List.mem_singleton.mp hcell

/-- A plan for a value names the value and the flag of its setting. -/
theorem valuePlan_cells : ∀ cell∈(valuePlan w s data len).map Write.cell,
    cell=(.value,s.key) ∨ cell=(.changed,s.key) := by
  intro cell hcell
  unfold valuePlan at hcell
  split at hcell
  · rw [List.map_cons,writeOf_cell,List.mem_cons] at hcell
    exact hcell.imp_right (markPlan_cells _ _ _ _)
  · cases hcell

/-- A plan names cells of its setting only. -/
theorem visitPlan_cells (op : StoreOp) :
    ∀ cell∈(visitPlan env op w s).map Write.cell,cell.2=s.key := by
  intro cell hcell
  have hvalue : ∀ {data : Mem} {len : ℕ},cell∈(valuePlan w s data len).map Write.cell →
      cell.2=s.key := by
    intro data len h
    rcases valuePlan_cells cell h with rfl|rfl <;> rfl
  have hmark : ∀ {flag : Bool},cell∈(markPlan (ram w) s.key flag).map Write.cell →
      cell.2=s.key := fun h => congrArg Prod.snd (markPlan_cells _ _ _ cell h)
  have hrestore : cell∈(if s.isSet then valuePlan w s s.defaultData.mem s.defaultDataLen
      else []).map Write.cell → cell.2=s.key := by
    split
    · exact hvalue
    · exact nofun
  cases op with
  | set => exact hvalue hcell
  | setDefault =>
    unfold visitPlan at hcell
    dsimp only at hcell
    split at hcell
    · rw [List.map_singleton,writeOf_cell,List.mem_singleton] at hcell
      rw [hcell]
    · cases hcell
  | restoreDefaults => exact hrestore hcell
  | restoreDefault => exact hrestore hcell
  | setChanged => exact hmark hcell
  | clearChangedOne => exact hmark hcell
  | clearChanged => exact hmark hcell

end Visit

section Runs

/-- The operation clears changed flags. -/
def clearing : StoreOp → Bool
  | .clearChangedOne _ | .clearChanged => true
  | .set .. | .setDefault .. | .restoreDefaults | .restoreDefault _ | .setChanged _ => false

/-- What is known of a watched store: storage lags behind in the listed cells
at most, and a value that is not the one at the last clear is flagged unless
it is listed. -/
structure Watching (marks : Marks) (state : Watched) : Prop where
  /-- The copies agree in all other cells. -/
  agree : AgreeBut state.2 (ledgerOf state.1)
  /-- A changed value is flagged. -/
  flagged : ∀ key s,state.1.getByKey key=some s → state.2 (.value,key)=false →
    marks key≠some (ram state.1 (.value,key)) → ram state.1 (.changed,key)=some [1]

/-- A visit keeps the agreement but for the cells it leaves behind. -/
theorem visit_agree (hq : Passive env.callbacks) (op : StoreOp) (hs : w.getByKey s.key=some s)
    (ha : AgreeBut behind (ledgerOf w)) :
    AgreeBut (watchedVisit env op (w,behind) s).2
      (ledgerOf (watchedVisit env op (w,behind) s).1) := by
  unfold watchedVisit
  dsimp only
  rw [visit_plan hq op hs]
  exact agreeBut_exec ha

/-- A value that was written and is not left behind is flagged. -/
theorem valuePlan_flags (hw : Writes s data len)
    (hb : lagging (medium env) (ledgerOf w) behind (valuePlan w s data len) (.value,s.key)=false) :
    (exec (medium env) (ledgerOf w) (valuePlan w s data len)).1.live (.changed,s.key)=
      some [1] := by
  have hother : (.changed,s.key)≠(writeOf (.value,s.key) (bytesAt data len)).cell := by
    rw [writeOf_cell]
    exact cell_ne .changed .value (by decide) s.key s.key
  have hlive : (attempt (medium env) (ledgerOf w)
      (writeOf (.value,s.key) (bytesAt data len))).live (.changed,s.key)=ram w (.changed,s.key) :=
    onLive_ne (ram w) hother
  unfold valuePlan at hb ⊢
  rw [if_pos hw] at hb ⊢
  rw [lagging_cons] at hb
  rw [exec_cons]
  by_cases hv : medium env (ledgerOf w).attempts=true
  · rw [if_pos hv]
    unfold markPlan
    split
    · rename_i hmarked
      exact hlive.trans hmarked
    · rw [exec_cons]
      split <;> exact Function.update_self ..
  · rw [if_neg hv,writeOf_cell,Function.update_self] at hb
    cases hb

/-- Setting a value keeps it flagged unless it is left behind. -/
theorem set_flagged (hq : Passive env.callbacks) (hs : w.getByKey s.key=some s)
    {mark : Option (Option (List UInt8))}
    (hf : behind (.value,s.key)=false → mark≠some (ram w (.value,s.key)) →
      ram w (.changed,s.key)=some [1])
    (hb : lagging (medium env) (ledgerOf w) behind (valuePlan w s data len) (.value,s.key)=false)
    (hm : mark≠some (ram (prvUserSettingsSet env env.callbacks w s data len).1 (.value,s.key))) :
    ram (prvUserSettingsSet env env.callbacks w s data len).1 (.changed,s.key)=some [1] := by
  by_cases hw : Writes s data len
  · have hplan : ledgerOf (prvUserSettingsSet env env.callbacks w s data len).1=_ :=
      set_plan hq hs
    have hlive : ram (prvUserSettingsSet env env.callbacks w s data len).1=_ :=
      congrArg Twin.live hplan
    rw [hlive]
    exact valuePlan_flags hw hb
  · rw [userSettingsSet_keeps hw] at hm ⊢
    unfold valuePlan at hb
    rw [if_neg hw] at hb
    exact hf hb hm

/-- A visit that clears no flag keeps the value flagged unless it is left behind. -/
theorem visit_flagged (hq : Passive env.callbacks) (hs : w.getByKey s.key=some s) {op : StoreOp}
    (hop : clearing op=false)
    {mark : Option (Option (List UInt8))}
    (hf : behind (.value,s.key)=false → mark≠some (ram w (.value,s.key)) →
      ram w (.changed,s.key)=some [1])
    (hb : (watchedVisit env op (w,behind) s).2 (.value,s.key)=false)
    (hm : mark≠some (ram (visit env op w s) (.value,s.key))) :
    ram (visit env op w s) (.changed,s.key)=some [1] := by
  have hrestore : lagging (medium env) (ledgerOf w) behind
        (if s.isSet then valuePlan w s s.defaultData.mem s.defaultDataLen else [])
        (.value,s.key)=false →
      mark≠some (ram (prvSettingsRestore env env.callbacks w s) (.value,s.key)) →
      ram (prvSettingsRestore env env.callbacks w s) (.changed,s.key)=some [1] := by
    unfold prvSettingsRestore
    split
    · exact set_flagged hq hs hf
    · exact hf
  cases op with
  | set => exact set_flagged hq hs hf hb hm
  | restoreDefaults => exact hrestore hb hm
  | restoreDefault => exact hrestore hb hm
  | setChanged =>
    have hram : ram (prvSetChangedRecentlyFlag env env.callbacks w s true).1=_ :=
      (flag_cells hs true).1
    change ram (prvSetChangedRecentlyFlag env env.callbacks w s true).1 (.changed,s.key)=some [1]
    rw [hram]
    exact Function.update_self ..
  | setDefault target data len =>
    -- a default value is neither the value nor the flag
    have hplan : ∀ subtree,subtree≠.default →
        (subtree,s.key)∉(visitPlan env (.setDefault target data len) w s).map Write.cell := by
      intro subtree hne hmem
      unfold visitPlan at hmem
      dsimp only at hmem
      split at hmem
      · rw [List.map_singleton,writeOf_cell,List.mem_singleton] at hmem
        exact hne (Prod.mk.inj hmem).1
      · cases hmem
    have hlive : ram (visit env (.setDefault target data len) w s)=_ :=
      congrArg Twin.live (visit_plan hq (.setDefault target data len) hs)
    have hkeeps : ∀ subtree,subtree≠.default →
        ram (visit env (.setDefault target data len) w s) (subtree,s.key)=
          ram w (subtree,s.key) := by
      intro subtree hne
      rw [hlive]
      exact live_exec_ne _ _ (hplan subtree hne)
    rw [hkeeps .value (by decide)] at hm
    rw [hkeeps .changed (by decide)]
    exact hf ((lagging_ne (hplan .value (by decide))).symm.trans hb) hm
  | clearChangedOne => cases hop
  | clearChanged => cases hop

/-- A visit keeps the values of other settings flagged. -/
theorem visit_flagged_other (hq : Passive env.callbacks) (op : StoreOp)
    (hs : w.getByKey s.key=some s) {key : CString} (hk : key≠s.key)
    {mark : Option (Option (List UInt8))}
    (hf : behind (.value,key)=false → mark≠some (ram w (.value,key)) →
      ram w (.changed,key)=some [1])
    (hb : (watchedVisit env op (w,behind) s).2 (.value,key)=false)
    (hm : mark≠some (ram (visit env op w s) (.value,key))) :
    ram (visit env op w s) (.changed,key)=some [1] := by
  have honly := visit_onlyAt hq op hs
  have hno : (.value,key)∉(visitPlan env op w s).map Write.cell :=
    fun hmem => hk (visitPlan_cells op _ hmem)
  rw [(honly.cells (.value,key) hk).1] at hm
  rw [(honly.cells (.changed,key) hk).1]
  exact hf ((lagging_ne hno).symm.trans hb) hm

/-- A visit that clears no flag keeps what is known of a watched store. -/
theorem visit_watching (hq : Passive env.callbacks) {op : StoreOp} (hop : clearing op=false)
    (hs : w.getByKey s.key=some s) (h : Watching marks (w,behind)) :
    Watching marks (watchedVisit env op (w,behind) s) := by
  refine ⟨visit_agree hq op hs h.agree,?_⟩
  intro key t ht hb hm
  have honly := visit_onlyAt hq op hs
  obtain ⟨old,hold,_⟩ := getByKey_of_registrations honly.regs.symm ht
  by_cases hk : key=s.key
  · subst hk
    exact visit_flagged hq hs hop (h.flagged s.key s hs) hb hm
  · exact visit_flagged_other hq op hs hk (h.flagged key old hold) hb hm

/-- Visits of all records keep what each of them keeps. -/
theorem visits_keep {P : Watched → Prop} {op : StoreOp}
    (hP : ∀ {u : World} {lags : Cell → Bool} {t : UserSetting},u.getByKey t.key=some t →
      P (u,lags) → P (watchedVisit env op (u,lags) t)) (h : P (w,behind)) :
    P (w.list.items.foldl (fun state s => watchedVisit env op state (state.1.deref s))
      (w,behind)) := by
  have hfold : ∀ (items : List UserSetting) (state : Watched),P state →
      (∀ t∈items,∃ now,state.1.getByKey t.key=some now) →
      P (items.foldl (fun state s => watchedVisit env op state (state.1.deref s)) state) := by
    intro items
    induction items with
    | nil => exact fun _ h _ => h
    | cons t rest ih =>
      rintro ⟨u,lags⟩ hu hitems
      obtain ⟨now,hnow⟩ := hitems t List.mem_cons_self
      have hself : u.getByKey now.key=some now := by rw [key_of_getByKey hnow,hnow]
      have hregs : registrations (visit env op u now)=registrations u :=
        (visit_effects op hself).sameSetup.regs
      rw [List.foldl_cons,deref_eq hnow]
      refine ih _ (hP hself hu) fun x hx => ?_
      obtain ⟨old,hold⟩ := hitems x (List.mem_cons_of_mem t hx)
      obtain ⟨new,hnew,_⟩ := getByKey_of_registrations hregs hold
      exact ⟨new,hnew⟩
  exact hfold w.list.items (w,behind) h fun t ht => ⟨t,getByKey_of_mem ht⟩

/-- Visits of all records are the operation on the store. -/
theorem visits_world (env : Env) (op : StoreOp) (w : World) (behind : Cell → Bool) :
    (w.list.items.foldl (fun state s => watchedVisit env op state (state.1.deref s))
      (w,behind)).1=forEachSetting (visit env op) w :=
  (List.foldl_hom Prod.fst fun _ _ => rfl).symm

/-- The marks after an operation. -/
def marksAfter (w : World) (op : StoreOp) (next : World) (marks : Marks) : Marks := fun key =>
  if clears w op key then some (ram next (.value,key)) else marks key

/-- A value that is not the marked one was not cleared and is not the one marked before. -/
theorem marksAfter_ne {op : StoreOp} {key : CString}
    (h : marksAfter w op next marks key≠some (ram next (.value,key))) :
    clears w op key=false ∧ marks key≠some (ram next (.value,key)) := by
  unfold marksAfter at h
  cases hcl : clears w op key with
  | true =>
    rw [hcl,if_pos rfl] at h
    exact absurd rfl h
  | false =>
    rw [hcl,if_neg (by decide)] at h
    exact ⟨rfl,h⟩

/-- The operation on one setting clears the flag of this setting or none. -/
theorem clears_one {op : StoreOp} {target : Target} (ht : target? op=some target)
    (hf : w.find target=some s) (hclear : clearing op=true) : clears w op s.key=true := by
  cases op with
  | clearChangedOne =>
    cases Option.some.inj ht
    unfold clears
    dsimp only
    rw [hf]
    exact decide_eq_true rfl
  | clearChanged => cases ht
  | _ => cases hclear

/-- The operation on all settings clears the flags of all settings or none. -/
theorem clears_all {op : StoreOp} (ht : target? op=none) (hclear : clearing op=true)
    (key : CString) : clears w op key=true := by
  cases op with
  | clearChanged => rfl
  | clearChangedOne => cases ht
  | _ => cases hclear

/-- The visit of one setting leaves a watched store watched. -/
theorem watching_one (hq : Passive env.callbacks) {op : StoreOp} {target : Target}
    (ht : target? op=some target) (hf : w.find target=some s) (h : Watching marks (w,behind)) :
    Watching (marksAfter w op (visit env op w s) marks) (watchedVisit env op (w,behind) s) := by
  have hs := getByKey_of_find hf
  refine ⟨visit_agree hq op hs h.agree,?_⟩
  intro key t hkey hb hm
  obtain ⟨hcl,hm⟩ := marksAfter_ne hm
  cases hclear : clearing op with
  | false => exact (visit_watching hq hclear hs h).flagged key t hkey hb hm
  | true =>
    -- only the flag of another setting can count, as that of this one was cleared
    have hother : key≠s.key := by
      rintro rfl
      rw [clears_one ht hf hclear] at hcl
      cases hcl
    obtain ⟨old,hold,_⟩ := getByKey_of_registrations (visit_onlyAt hq op hs).regs.symm hkey
    exact visit_flagged_other hq op hs hother (h.flagged key old hold) hb hm

/-- The visits of all settings leave a watched store watched. -/
theorem watching_all (hq : Passive env.callbacks) {op : StoreOp} (ht : target? op=none)
    (h : Watching marks (w,behind)) :
    Watching (marksAfter w op (forEachSetting (visit env op) w) marks)
      (w.list.items.foldl (fun state s => watchedVisit env op state (state.1.deref s))
        (w,behind)) := by
  refine ⟨?_,?_⟩
  · exact visits_keep (P:=fun state => AgreeBut state.2 (ledgerOf state.1))
      (fun hu ha => visit_agree hq op hu ha) h.agree
  · intro key t hkey hb hm
    rw [visits_world] at hm
    obtain ⟨hcl,hm⟩ := marksAfter_ne hm
    cases hclear : clearing op with
    | false =>
      have hall := visits_keep (P:=Watching marks) (fun hu ha => visit_watching hq hclear hu ha) h
      rw [←visits_world env op w behind] at hm
      exact hall.flagged key t hkey hb hm
    | true =>
      rw [clears_all ht hclear key] at hcl
      cases hcl

/-- A step leaves a watched store watched. -/
theorem watching_step (hq : Passive env.callbacks) {op : StoreOp}
    (h : Watching marks (w,behind)) (hs : step env w op=some next) :
    Watching (marksAfter w op next marks) (next,laggingAfter env (w,behind) op) := by
  unfold laggingAfter
  cases step_cases hs with
  | inl hone =>
    obtain ⟨target,s,ht,hf,rfl⟩ := hone
    rw [ht]
    dsimp only
    rw [hf]
    exact watching_one hq ht hf h
  | inr hall =>
    obtain ⟨ht,rfl⟩ := hall
    rw [ht]
    dsimp only
    have hwatching := watching_all hq ht h
    rw [←visits_world env op w behind] at hwatching ⊢
    exact hwatching

/-- A start leaves nothing behind. -/
theorem watching_start {setup : Setup} {start : World} (hb : Booted setup w start) :
    Watching (startMarks start) (start,fun _ => false) := by
  refine ⟨fun cell _ => congrFun (booted_ram hb) cell,?_⟩
  intro key s hs _ hm
  unfold startMarks at hm
  rw [hs] at hm
  dsimp only at hm
  rw [ram_eq hs]
  dsimp only [content]
  cases hf : s.hasChangedRecently with
  | true => rfl
  | false =>
    rw [hf] at hm
    exact absurd rfl hm

/-- What a call skips is done already if storage does not lag behind in it. -/
theorem settled_of_skipsStored {setup : Setup} (hrun : Running setup w)
    (h : Watching marks (w,behind)) {op : StoreOp} (hc : SkipsStored ((w,marks),behind) op) :
    Settled env (w,marks) op := by
  have hstored : ∀ {cell : Cell} {bytes : List UInt8},behind cell=false → ram w cell=some bytes →
      Cells.stored w cell=some bytes := fun hb hram => (h.agree _ hb).symm.trans hram
  cases op with
  | set target data len =>
    intro s hf
    have hs := getByKey_of_find hf
    have hok := hrun.records.getByKey hs
    obtain ⟨hflag,hvalue⟩ := hc s hf
    refine ⟨fun hsame hn => ?_,fun hsame hm => ?_,fun _ _ hchanged _ => ?_⟩
    · have hram := ram_sameValue hok hs hsame hn
      have hfit : len ≤ s.maxSize := hsame.2.trans_le hok.value.len_le
      exact ((kept_iff (by decide) hs hn hfit).mpr ⟨hstored (hvalue hsame) hram,hram⟩).entry
    · have hram := h.flagged s.key s hs (hvalue hsame) hm
      exact ⟨hram,hstored hflag hram⟩
    · exact hstored hflag ((ram_changed_iff hs).mpr hchanged)
  | setDefault target data len =>
    intro s hf hsame hn
    have hs := getByKey_of_find hf
    have hok := hrun.records.getByKey hs
    have hram := ram_sameDefault hok hs hsame hn
    have hfit : len ≤ s.maxSize := hsame.1.trans_le hok.default.len_le
    exact ((kept_iff (by decide) hs hn hfit).mpr ⟨hstored (hc s hf hsame) hram,hram⟩).entry
  | restoreDefaults => trivial
  | restoreDefault => trivial
  | setChanged => trivial
  | clearChangedOne => trivial
  | clearChanged => trivial

/-- Along every run after a load, whichever storage calls fail, with callbacks
that do not modify settings: if no call skips a cell that a failed storage call
or a write of no bytes left behind since it was last stored, every success of
a set or set_default call is durable. -/
theorem success_durable_of_history (env : Env) (setup : Setup) (nvs : Entries) (start : World)
    (hq : ∀ n,env.react n=[]) (hboot : boot env setup nvs=.ok start) (ops : List StoreOp)
    (hskips : Meets (watchedStep env) SkipsStored ((start,startMarks start),fun _ => false) ops) :
    Meets (markedStep env) (Durable env) (start,startMarks start) ops := by
  have hpassive := passive_callbacks hq
  have hb := reboot_ok hboot
  let Inv : (World×Marks)×(Cell → Bool) → Prop :=
    fun state => Running setup state.1.1 ∧ Watching state.1.2 (state.1.1,state.2)
  have hstart : Inv ((start,startMarks start),fun _ => false) :=
    ⟨running_of_booted hb,watching_start hb⟩
  have hpres : Preserves (watchedStep env) SkipsStored Inv := by
    rintro ⟨⟨w,marks⟩,behind⟩ op next ⟨hrun,hwatch⟩ _ hs
    obtain ⟨marked,hmarked,rfl⟩ := Option.map_eq_some_iff.mp hs
    obtain ⟨reached,hstep,rfl⟩ := Option.map_eq_some_iff.mp hmarked
    exact ⟨hrun.effects (step_effects hstep),watching_step hpassive hwatch hstep⟩
  have hdurable : ∀ state op,Inv state → SkipsStored state op → Durable env state.1 op :=
    fun state op hi hc =>
      (durable_iff hpassive hi.1 state.1.2 op).mpr (settled_of_skipsStored hi.1 hi.2 hc)
  exact meets_fst (meets_imp hpres hdurable hstart hskips)

/-- Whether a call skips only what is stored can be decided. -/
instance (state : (World×Marks)×(Cell → Bool)) (op : StoreOp) :
    Decidable (SkipsStored state op) :=
  match op with
  | .set target data len => inferInstanceAs (Decidable (∀ s∈state.1.1.find target,
      state.2 (.changed,s.key)=false ∧ (SameValue s data len → state.2 (.value,s.key)=false)))
  | .setDefault target data len => inferInstanceAs (Decidable (∀ s∈state.1.1.find target,
      SameDefault s data len → state.2 (.default,s.key)=false))
  | .restoreDefaults | .restoreDefault _ | .setChanged _ | .clearChangedOne _ | .clearChanged =>
    .isTrue trivial

/-- After a set call that failed another value can be set, and set again. -/
theorem success_durable_after_failure :
    let another : StoreOp := .set (.key keyA) (memOf [6]) 1
    ∃ start,boot firstFails (device .u8 0 none none) ∅=.ok start ∧
      Meets (markedStep firstFails) (Durable firstFails) (start,startMarks start)
        [.set (.key keyA) (memOf [5]) 1,another,another] :=
  ⟨_,rfl,success_durable_of_history firstFails (device .u8 0 none none) ∅ _ (fun _ => rfl) rfl _
    (by decide +kernel)⟩

end Runs

end UserSettings.Retries
