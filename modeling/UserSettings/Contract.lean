import UserSettings.Machine
import UserSettings.Queries
import UserSettings.Traversal

/-!
# When a call is in order

Every public function begins with assertions: the module is initialized, or
loaded, and the setting that is named exists. Whether a call passes them is
decided by the calls before it: what is left of the module is a phase, made of
two flags and the names that were added. No value, no length, no stored entry,
no failing storage and no callback enters it.
-/

namespace UserSettings.Contract

open Bytes Settings Storage Store Effects Load Operations Transition Lifecycle Traversal
open Machine Queries

/-- A call of a public function. -/
inductive Call where
  /-- Initialize, add, register by key, load, or act on settings. -/
  | lifecycle (op : LifecycleOp)
  /-- Register the on_change callback by identifier. -/
  | setOnChangeCbWithId (id : UInt16) (cb : Option OnChangePtr)
  /-- Register the validate callback by identifier. -/
  | setValidateCbWithId (id : UInt16) (cb : Option ValidateFn)
  /-- Get the value, else the default value. -/
  | get (target : Target)
  /-- Get the default value. -/
  | getDefault (target : Target)
  /-- Ask for a value. -/
  | isSet (target : Target)
  /-- Ask for a default value. -/
  | hasDefault (target : Target)
  /-- Ask for the maximum length. -/
  | getMaxLen (target : Target)
  /-- Ask for the type. -/
  | getType (target : Target)
  /-- Ask for the identifier of a key. -/
  | keyToId (key : CString)
  /-- Ask for the key of an identifier. -/
  | idToKey (id : UInt16)
  /-- Let data be judged. -/
  | validate (target : Target) (data : Mem) (len : ℕ)
  /-- Ask for the setting itself. -/
  | exists (target : Target)

/-- A call that neither initializes the module nor adds a setting. -/
def Call.Repeatable : Call → Prop
  | .lifecycle (.init _) | .lifecycle (.add ..) | .lifecycle (.addSized ..) => False
  | _ => True

/-- A question that passes its assertions leaves the module as it is. -/
def answered {β : Type} (w : World) (result : Except Fault β) : Option World :=
  result.toOption.map fun _ => w

/-- A call makes a step if it passes its assertions. -/
def callStep (env : Env) (w : World) : Call → Option World
  | .lifecycle op => lifecycleStep env w op
  | .setOnChangeCbWithId id cb => (userSettingsSetOnChangeCbWithId w id cb).toOption
  | .setValidateCbWithId id cb => (userSettingsSetValidateCbWithId w id cb).toOption
  | .get target => answered w (userSettingsGet w target)
  | .getDefault target => answered w (userSettingsGetDefault w target)
  | .isSet target => answered w (userSettingsIsSet w target)
  | .hasDefault target => answered w (userSettingsHasDefault w target)
  | .getMaxLen target => answered w (userSettingsGetMaxLen w target)
  | .getType target => answered w (userSettingsGetType w target)
  | .keyToId key => answered w (userSettingsKeyToId w key)
  | .idToKey id => answered w (userSettingsIdToKey w id)
  | .validate target data len => answered w (userSettingsValidate w target data len)
  | .exists target => answered w (userSettingsExists w target)

/-- No subtree fails to load. -/
def succeeds (backend : Subtree → Loading) : Bool :=
  (backend .default).err=0 && (backend .value).err=0 && (backend .changed).err=0

/-- All that the assertions depend on. -/
structure Phase where
  /-- The module was initialized. -/
  isInited : Bool
  /-- A load has succeeded. -/
  isLoaded : Bool
  /-- Key and identifier of the settings that were added, in order. -/
  names : List (CString×UInt16)

namespace Phase

/-- A setting with this name was added. -/
def knows (p : Phase) : Target → Bool
  | .key key => p.names.any fun name => decide (key=name.1)
  | .id id => p.names.any fun name => decide (id=name.2)

/-- Both names of a new setting are new. -/
def free (p : Phase) (id : UInt16) (key : CString) : Bool :=
  !p.knows (.id id) && !p.knows (.key key)

/-- A setting is added. -/
def add (p : Phase) (id : UInt16) (key : CString) : Phase := {p with names := p.names++[(key,id)]}

/-- The calls that are in order. -/
def allows (p : Phase) : Call → Bool
  | .lifecycle (.init _) => !p.isInited
  | .lifecycle (.add id key type) =>
    p.isInited && decide (type≠.str ∧ type≠.bytes) && p.free id key
  | .lifecycle (.addSized id key type _) =>
    p.isInited && decide (type=.str ∨ type=.bytes) && p.free id key
  | .lifecycle (.setOnChangeCb key _) | .lifecycle (.setValidateCb key _) =>
    p.isInited && p.knows (.key key)
  | .lifecycle (.setGlobalOnChangeCb _) | .lifecycle (.load _) => p.isInited
  | .lifecycle (.store op) => p.isLoaded && (target? op).all p.knows
  | .setOnChangeCbWithId id _ | .setValidateCbWithId id _ => p.isInited && p.knows (.id id)
  | .get target | .getDefault target | .isSet target | .hasDefault target | .getMaxLen target
  | .getType target => p.isLoaded && p.knows target
  | .keyToId key => p.isLoaded && p.knows (.key key)
  | .idToKey id => p.isLoaded && p.knows (.id id)
  | .validate target _ _ => p.isInited && p.knows target
  | .exists _ => p.isLoaded

/-- What a call that is in order changes: a failed initialization leaves an
empty list, and a load counts only if all its subtrees succeed. -/
def after (p : Phase) : Call → Phase
  | .lifecycle (.init err) => {p with isInited := decide (err=0), names := []}
  | .lifecycle (.add id key _) | .lifecycle (.addSized id key _ _) => p.add id key
  | .lifecycle (.load backend) =>
    {p with isLoaded := p.isLoaded || succeeds backend}
  | _ => p

/-- The next phase, if the call is in order. -/
def next (p : Phase) (call : Call) : Option Phase :=
  if p.allows call then some (p.after call) else none

end Phase

/-- The phase of a module. -/
def phaseOf (w : World) : Phase := ⟨w.isInited,w.isLoaded,names w⟩

variable {env : Env} {w next : World}

/-- Whether a setting is found depends on the names. -/
theorem knows_eq (w : World) (target : Target) :
    (phaseOf w).knows target=(w.find target).isSome := by
  have hany : ∀ p : CString×UInt16 → Bool,
      (names w).any p=(w.list.items.find? fun s => p (named s)).isSome := by
    intro p
    rw [List.isSome_find?,names,List.any_map]
    rfl
  cases target with
  | key key => exact hany fun name => decide (key=name.1)
  | id id => exact hany fun name => decide (id=name.2)

/-- What keeps the setup keeps the phase. -/
theorem phase_of_sameSetup (h : SameSetup w next) : phaseOf next=phaseOf w := by
  unfold phaseOf
  rw [h.isInited,h.isLoaded,names_of_registrations h.regs]

/-- A change of a record keeps the phase. -/
theorem phase_modify (w : World) (key : CString) (u : Update) :
    phaseOf (w.modify key u)=phaseOf w :=
  congrArg (Phase.mk w.isInited w.isLoaded) (names_modify w key u)

variable (env) in
/-- A delivery of an entry keeps the phase, whatever the callbacks do. -/
theorem phase_hSet (w : World) (subtree : Subtree) (key : CString) (len : ℕ) (readCb : ReadCb) :
    phaseOf (hSet env.callbacks w subtree key len readCb).1=phaseOf w := by
  rcases hSet_cases env.callbacks w subtree key len readCb with h|⟨s,bytes,_,h|⟨_,h⟩⟩ <;> rw [h]
  · exact phase_modify w key _
  · have hnotified := notified_effects env (w.modify key (loadUpdate subtree bytes)) s
    exact (phase_of_sameSetup hnotified.sameSetup).trans (phase_modify w key _)

variable (env) in
/-- The deliveries of a subtree keep the phase. -/
theorem phase_loadSubtree (w : World) (subtree : Subtree) (loading : Loading) :
    phaseOf (settingsLoadSubtree env.callbacks w subtree loading).1=phaseOf w := by
  refine loadSubtree_keeps (P:=fun v => phaseOf v=phaseOf w) (fun d _ v hv => ?_) rfl
  exact (phase_hSet env v subtree d.key d.len d.readCb).trans hv

/-- A step that never changes the phase is described by when it is made. -/
theorem map_phase {result : Option World} {allowed : Bool} (hmade : result.isSome=allowed)
    (hsame : ∀ next,result=some next → phaseOf next=phaseOf w) :
    result.map phaseOf=if allowed then some (phaseOf w) else none := by
  cases result with
  | none =>
    rw [←hmade]
    rfl
  | some next =>
    rw [←hmade,Option.map_some,hsame next rfl]
    rfl

/-- A question about a setting needs a loaded module that has it. -/
theorem answered_phase {β : Type} (w : World) (target : Target) (f : UserSetting → β) :
    (answered w (withSetting w target f)).map phaseOf=
      if (phaseOf w).isLoaded && (phaseOf w).knows target then some (phaseOf w) else none := by
  refine map_phase ?_ fun next h => ?_
  · rw [knows_eq]
    unfold answered withSetting phaseOf
    dsimp only
    cases w.isLoaded with
    | false => rfl
    | true => cases w.find target <;> rfl
  · obtain ⟨_,_,rfl⟩ := Option.map_eq_some_iff.mp h
    rfl

/-- Registering a callback needs an initialized module that has the setting. -/
theorem registered_phase (w : World) (key : CString) (u : Update) :
    (registerWithKey w key u).toOption.map phaseOf=
      if (phaseOf w).isInited && (phaseOf w).knows (.key key) then some (phaseOf w) else none := by
  refine map_phase ?_ fun next h => ?_
  · rw [knows_eq]
    unfold registerWithKey phaseOf
    change _=(w.isInited && (w.getByKey key).isSome)
    cases w.isInited with
    | false => rfl
    | true => cases (w.getByKey key).isSome <;> rfl
  · have hok := toOption_eq_some.mp h
    unfold registerWithKey at hok
    split at hok
    · cases hok
      exact phase_modify w key u
    · cases hok

/-- The same by identifier. -/
theorem registered_phase_id (w : World) (id : UInt16) (u : Update) :
    (match w.find (.id id) with
      | none => (.error .assertion : Except Fault World)
      | some s => registerWithKey w s.key u).toOption.map phaseOf=
      if (phaseOf w).isInited && (phaseOf w).knows (.id id) then some (phaseOf w) else none := by
  cases hs : w.find (.id id) with
  | none =>
    rw [knows_eq,hs]
    cases (phaseOf w).isInited <;> rfl
  | some s =>
    have hkey : w.find (.key s.key)=some s := find_key_iff.mpr ((getById_some hs).2 ▸ hs)
    dsimp only
    rw [registered_phase,knows_eq,knows_eq,hs,hkey]

/-- A new setting needs two new names. -/
theorem listAdd_phase (w : World) (id : UInt16) (key : CString) (type : UserSettingType)
    (size : ℕ) :
    (do
      let list ← prvUserSettingsListAdd w.list id key type size
      return {w with list := list}).toOption.map phaseOf=
      if (phaseOf w).free id key then some ((phaseOf w).add id key) else none := by
  unfold Phase.free
  rw [knows_eq,knows_eq]
  unfold prvUserSettingsListAdd
  change _=if !(userSettingsListGetById w.list id).isSome &&
    !(userSettingsListGetByKey w.list key).isSome then _ else _
  split
  · rename_i hfresh
    rw [hfresh.1,hfresh.2]
    have hnames : (w.list.items++[UserSetting.fresh id key type size]).map named=
        names w++[(key,id)] := List.map_append
    exact congrArg (fun names => some (Phase.mk w.isInited w.isLoaded names)) hnames
  · rename_i hstale
    cases hi : userSettingsListGetById w.list id with
    | some s => rfl
    | none =>
      cases hk : userSettingsListGetByKey w.list key with
      | some s => rfl
      | none => exact (hstale ⟨hi,hk⟩).elim

/-- The add functions need an initialized module and a type that they serve. -/
theorem added_phase {id : UInt16} {key : CString} {type : UserSettingType} {size : ℕ}
    {served : Prop} [Decidable served] {added : Except Fault SettingsList}
    (hadded : served → added=prvUserSettingsListAdd w.list id key type size) :
    (if w.isInited ∧ served then do
      let list ← added
      return {w with list := list}
    else .error .assertion).toOption.map phaseOf=
      if (phaseOf w).isInited && decide served && (phaseOf w).free id key then
        some ((phaseOf w).add id key) else none := by
  split
  · rename_i hc
    have hcond : ((phaseOf w).isInited && decide served)=true :=
      Bool.and_eq_true_iff.mpr ⟨hc.1,decide_eq_true hc.2⟩
    rw [hadded hc.2,hcond,Bool.true_and]
    exact listAdd_phase w id key type size
  · rename_i hc
    have hcond : ((phaseOf w).isInited && decide served)=false := by
      refine Bool.eq_false_iff.mpr fun hall => hc ?_
      obtain ⟨hi,hserved⟩ := Bool.and_eq_true_iff.mp hall
      exact ⟨hi,of_decide_eq_true hserved⟩
    rw [hcond,Bool.false_and]
    rfl

/-- Initializing needs a module that is not initialized. -/
theorem init_phase (w : World) (err : ℤ) :
    ((userSettingsInit w err).toOption.map Prod.fst).map phaseOf=
      (phaseOf w).next (.lifecycle (.init err)) := by
  change _=if !w.isInited then some (Phase.mk (decide (err=0)) w.isLoaded []) else none
  unfold userSettingsInit
  cases hi : w.isInited with
  | true => rfl
  | false =>
    by_cases herr : err=0
    · rw [herr]
      rfl
    · rw [if_neg Bool.false_ne_true,if_pos herr,decide_eq_false herr]
      rfl

variable (env) in
/-- A load of an initialized module keeps the phase, but for its success. -/
theorem load_result (hi : w.isInited=true) (backend : Subtree → Loading) :
    ∃ last ret,phaseOf last=phaseOf w ∧ userSettingsLoad env w backend=
      .ok (if succeeds backend then {last with isLoaded := true} else last,ret) := by
  have hdefaults := phase_loadSubtree env w .default (backend .default)
  have hvalues := (phase_loadSubtree env (settingsLoadSubtree env.callbacks w .default
    (backend .default)).1 .value (backend .value)).trans hdefaults
  have hflags := (phase_loadSubtree env (settingsLoadSubtree env.callbacks
    (settingsLoadSubtree env.callbacks w .default (backend .default)).1 .value
    (backend .value)).1 .changed (backend .changed)).trans hvalues
  have hskip : ∀ {subtree} {failed later : Except Fault (World×ℤ)},(backend subtree).err=0 →
      (if (backend subtree).err≠0 then failed else later)=later := fun h => if_neg (not_not.mpr h)
  unfold userSettingsLoad
  rw [if_pos hi]
  by_cases hd : (backend .default).err=0
  · by_cases hv : (backend .value).err=0
    · by_cases hf : (backend .changed).err=0
      · have hs : succeeds backend=true := by simp [succeeds,hd,hv,hf]
        refine ⟨_,0,hflags,?_⟩
        rw [hs]
        exact (hskip hd).trans ((hskip hv).trans (hskip hf))
      · have hs : succeeds backend=false := by simp [succeeds,hf]
        refine ⟨_,-eIo,hflags,?_⟩
        rw [hs]
        exact (hskip hd).trans ((hskip hv).trans (if_pos hf))
    · have hs : succeeds backend=false := by simp [succeeds,hv]
      refine ⟨_,-eIo,hvalues,?_⟩
      rw [hs]
      exact (hskip hd).trans (if_pos hv)
  · have hs : succeeds backend=false := by simp [succeeds,hd]
    refine ⟨_,-eIo,hdefaults,?_⟩
    rw [hs]
    exact if_pos hd

/-- A load needs an initialized module. It counts if no subtree fails, and
one that counted before still does. -/
theorem load_phase (env : Env) (w : World) (backend : Subtree → Loading) :
    ((userSettingsLoad env w backend).toOption.map Prod.fst).map phaseOf=
      (phaseOf w).next (.lifecycle (.load backend)) := by
  by_cases hi : w.isInited=true
  · obtain ⟨last,ret,hlast,hload⟩ := load_result env hi backend
    have hnext : (phaseOf w).next (.lifecycle (.load backend))=
        some {phaseOf w with isLoaded := (phaseOf w).isLoaded || succeeds backend} := if_pos hi
    rw [hload,hnext,←hlast]
    cases succeeds backend with
    | false => exact congrArg (fun flag => some (Phase.mk _ flag _)) (Bool.or_false _).symm
    | true => exact congrArg (fun flag => some (Phase.mk _ flag _)) (Bool.or_true _).symm
  · unfold userSettingsLoad
    rw [if_neg hi]
    exact (if_neg hi).symm

/-- A call on settings needs a loaded module that has the setting it names. -/
theorem store_phase (env : Env) (w : World) (op : StoreOp) :
    (Operations.step env w op).map phaseOf=
      (phaseOf w).next (.lifecycle (.store op)) := by
  refine map_phase ?_ fun next h => phase_of_sameSetup (step_effects h).sameSetup
  rw [step_eq]
  unfold Phase.allows
  change _=(w.isLoaded && (target? op).all (phaseOf w).knows)
  cases w.isLoaded with
  | false => rfl
  | true =>
    cases target? op with
    | none => rfl
    | some target =>
      rw [Option.all_some,knows_eq,Bool.true_and]
      exact Option.isSome_map

/-- Every call makes its step exactly when it is in order. -/
theorem callStep_phase (env : Env) (w : World) (call : Call) :
    (callStep env w call).map phaseOf=(phaseOf w).next call := by
  cases call with
  | lifecycle op =>
    cases op with
    | init err => exact init_phase w err
    | add id key type =>
      have hsize : type≠.str ∧ type≠.bytes → userSettingsListAddFixedSize w.list id key type=
          prvUserSettingsListAdd w.list id key type ((prvTypeToSize type).getD 0) := by
        intro hserved
        cases type <;> simp_all [userSettingsListAddFixedSize,prvTypeToSize]
      exact added_phase hsize
    | addSized id key type size => exact added_phase fun hserved => if_pos hserved
    | setOnChangeCb key cb => exact registered_phase w key _
    | setValidateCb key cb => exact registered_phase w key _
    | setGlobalOnChangeCb cb =>
      change (userSettingsSetGlobalOnChangeCb w cb).toOption.map phaseOf=
        if w.isInited then some (phaseOf w) else none
      unfold userSettingsSetGlobalOnChangeCb
      split <;> rfl
    | load backend => exact load_phase env w backend
    | store op => exact store_phase env w op
  | setOnChangeCbWithId id cb => exact registered_phase_id w id _
  | setValidateCbWithId id cb => exact registered_phase_id w id _
  | get target | getDefault target | isSet target | hasDefault target | getMaxLen target
  | getType target => exact answered_phase w target _
  | keyToId key => exact answered_phase w (.key key) _
  | idToKey id => exact answered_phase w (.id id) _
  | validate target data len =>
    refine map_phase ?_ fun next h => ?_
    · change (answered w (userSettingsValidate w target data len)).isSome=
        (w.isInited && (phaseOf w).knows target)
      rw [knows_eq]
      unfold answered userSettingsValidate
      cases w.isInited with
      | false => rfl
      | true => cases w.find target <;> rfl
    · obtain ⟨_,_,rfl⟩ := Option.map_eq_some_iff.mp h
      rfl
  | «exists» target =>
    refine map_phase ?_ fun next h => ?_
    · change (answered w (userSettingsExists w target)).isSome=w.isLoaded
      unfold answered userSettingsExists
      cases w.isLoaded <;> rfl
    · obtain ⟨_,_,rfl⟩ := Option.map_eq_some_iff.mp h
      rfl

/-- From every state, whatever calls are made, with whatever data, on a device
with any stored entries, failing storage and callbacks that set settings: the
first call that trips an assertion is the first one that is not in order, and
if there is none the module ends in the phase that the calls lead to. -/
theorem calls_in_order (env : Env) (w : World) (calls : List Call) :
    (run (callStep env) w calls).map phaseOf=run Phase.next (phaseOf w) calls := by
  have hrun : _=run Phase.next (phaseOf w) (calls.map id) :=
    run_refines (I:=fun _ => True) phaseOf id (fun _ _ _ _ _ => trivial)
      (fun state call _ => callStep_phase env state call) trivial calls
  rwa [List.map_id] at hrun

/-- A value is set before the settings are loaded. -/
example : run Phase.next ⟨false,false,[]⟩ [.lifecycle (.init 0),.lifecycle (.add 1 keyA .u8),
    .lifecycle (.store (.set (.id 1) (memOf [5]) 1))]=none := rfl

namespace Phase

variable {p q : Phase} {call : Call}

/-- Nothing happens before initialization. -/
def Begun (p : Phase) : Prop := p.isInited=false → p.isLoaded=false ∧ p.names=[]

/-- A phase has all that another one has. -/
structure Within (p q : Phase) : Prop where
  /-- It is initialized if the other one is. -/
  isInited : p.isInited=true → q.isInited=true
  /-- It is loaded if the other one is. -/
  isLoaded : p.isLoaded=true → q.isLoaded=true
  /-- It has the names of the other one. -/
  names : ∀ name∈p.names,name∈q.names

/-- A phase is within itself. -/
theorem Within.refl (p : Phase) : p.Within p := ⟨fun h => h,fun h => h,fun _ h => h⟩

/-- A phase is within those after the next. -/
theorem Within.trans {r : Phase} (h : p.Within q) (k : q.Within r) : p.Within r :=
  ⟨fun hp => k.isInited (h.isInited hp),fun hp => k.isLoaded (h.isLoaded hp),
    fun name hp => k.names name (h.names name hp)⟩

/-- The names of a phase are known within it. -/
theorem Within.knows (h : p.Within q) {target : Target} (hp : p.knows target=true) :
    q.knows target=true := by
  cases target with
  | key key =>
    obtain ⟨name,hname,heq⟩ := List.any_eq_true.mp hp
    exact List.any_eq_true.mpr ⟨name,h.names name hname,heq⟩
  | id id =>
    obtain ⟨name,hname,heq⟩ := List.any_eq_true.mp hp
    exact List.any_eq_true.mpr ⟨name,h.names name hname,heq⟩

/-- What a call that is in order does to a phase. -/
theorem next_cases (h : p.next call=some q) :
    q=p ∨ p.isInited=false ∧ q.isLoaded=p.isLoaded ∧ q.names=[] ∨
      p.isInited=true ∧ q.isInited=true ∧ p.Within q := by
  unfold next at h
  split at h
  · rename_i hallowed
    cases h
    have hadds : ∀ id key,p.Within (p.add id key) := fun _ _ =>
      ⟨fun h => h,fun h => h,fun _ hname => List.mem_append_left _ hname⟩
    cases call with
    | lifecycle op =>
      cases op with
      | init err => exact .inr (.inl ⟨by simpa [allows] using hallowed,rfl,rfl⟩)
      | add id key type =>
        have hi : p.isInited=true := by
          simp only [allows,Bool.and_eq_true] at hallowed
          exact hallowed.1.1
        exact .inr (.inr ⟨hi,hi,hadds id key⟩)
      | addSized id key type size =>
        have hi : p.isInited=true := by
          simp only [allows,Bool.and_eq_true] at hallowed
          exact hallowed.1.1
        exact .inr (.inr ⟨hi,hi,hadds id key⟩)
      | load backend =>
        exact .inr (.inr ⟨hallowed,hallowed,fun h => h,fun h => Bool.or_eq_true_iff.mpr (.inl h),
          fun _ h => h⟩)
      | setOnChangeCb | setValidateCb | setGlobalOnChangeCb | store => exact .inl rfl
    | setOnChangeCbWithId | setValidateCbWithId | get | getDefault | isSet | hasDefault
    | getMaxLen | getType | keyToId | idToKey | validate | «exists» => exact .inl rfl
  · cases h

/-- Phases only grow. -/
theorem next_within (hp : p.Begun) (h : p.next call=some q) : q.Begun ∧ p.Within q := by
  rcases next_cases h with rfl|⟨hi,hl,hn⟩|⟨_,hq,hwithin⟩
  · exact ⟨hp,Within.refl q⟩
  · obtain ⟨hloaded,hnames⟩ := hp hi
    refine ⟨fun _ => ⟨hl.trans hloaded,hn⟩,?_,?_,?_⟩
    · intro h
      rw [hi] at h
      cases h
    · intro h
      rw [hloaded] at h
      cases h
    · intro name h
      rw [hnames] at h
      cases h
  · refine ⟨fun hnot => ?_,hwithin⟩
    rw [hq] at hnot
    cases hnot

/-- A call that is in order once is in order in all later phases, if it neither
initializes nor adds a setting. -/
theorem Within.allows (h : p.Within q) (hcall : call.Repeatable) (hp : p.allows call=true) :
    q.allows call=true := by
  have hboth : ∀ {a b c d : Bool},(a=true → c=true) → (b=true → d=true) → (a && b)=true →
      (c && d)=true := by
    intro a b c d hac hbd hab
    obtain ⟨ha,hb⟩ := Bool.and_eq_true_iff.mp hab
    exact Bool.and_eq_true_iff.mpr ⟨hac ha,hbd hb⟩
  cases call with
  | lifecycle op =>
    cases op with
    | init err => cases hcall
    | add id key type => cases hcall
    | addSized id key type size => cases hcall
    | setOnChangeCb | setValidateCb => exact hboth h.isInited h.knows hp
    | setGlobalOnChangeCb | load => exact h.isInited hp
    | store op =>
      refine hboth h.isLoaded (fun hall => ?_) hp
      cases ht : target? op with
      | none => rfl
      | some target =>
        rw [ht] at hall
        exact h.knows hall
  | setOnChangeCbWithId | setValidateCbWithId | validate => exact hboth h.isInited h.knows hp
  | get | getDefault | isSet | hasDefault | getMaxLen | getType | keyToId | idToKey =>
    exact hboth h.isLoaded h.knows hp
  | «exists» => exact h.isLoaded hp

end Phase

/-- On a device that was started from nothing, whatever calls were made: a call
that passes its assertions once passes them ever after, whatever is called in
between, unless it initializes the module or adds a setting. -/
theorem once_in_order (env : Env) (nvs : Entries) (earlier later : List Call) (call : Call)
    (hcall : call.Repeatable) (w next final : World)
    (hw : run (callStep env) (World.unstarted nvs) earlier=some w)
    (hnext : callStep env w call=some next) (hfinal : run (callStep env) w later=some final) :
    ∃ last,callStep env final call=some last := by
  have habstract : ∀ {u v : World} {calls : List Call},run (callStep env) u calls=some v →
      run Phase.next (phaseOf u) calls=some (phaseOf v) := by
    intro u v calls h
    rw [←calls_in_order env,h]
    rfl
  have hbegun : (phaseOf w).Begun :=
    run_invariant_always (fun _ _ _ hp h => (Phase.next_within hp h).1)
      (fun _ => ⟨rfl,rfl⟩) (habstract hw)
  have hgrown : (phaseOf final).Begun ∧ (phaseOf w).Within (phaseOf final) := by
    refine run_invariant_always (I:=fun p : Phase => p.Begun ∧ (phaseOf w).Within p)
      (fun _ _ _ hp h => ?_) ⟨hbegun,Phase.Within.refl _⟩ (habstract hfinal)
    obtain ⟨hlater,hwithin⟩ := Phase.next_within hp.1 h
    exact ⟨hlater,hp.2.trans hwithin⟩
  have hallowed : (phaseOf w).allows call=true := by
    have hstep := callStep_phase env w call
    rw [hnext] at hstep
    unfold Phase.next at hstep
    split at hstep
    · assumption
    · cases hstep
  have hlast : (callStep env final call).map phaseOf=some ((phaseOf final).after call) :=
    (callStep_phase env final call).trans (if_pos (hgrown.2.allows hcall hallowed))
  obtain ⟨last,hstep,_⟩ := Option.map_eq_some_iff.mp hlast
  exact ⟨last,hstep⟩

/-- A setting is read after another load that fails half way. -/
theorem once_in_order_on_device : ∃ w final,
    run (callStep calm) (World.unstarted ∅) [.lifecycle (.init 0),.lifecycle (.add 1 keyA .u8),
      .lifecycle (.load fun _ => ⟨[],0⟩)]=some w ∧
    run (callStep calm) w [.lifecycle (.load fun subtree => ⟨[],if subtree=.value then 5 else 0⟩),
      .lifecycle (.add 2 (keyWithPrefix .value keyA) .bool)]=some final ∧
    ∃ last,callStep calm final (.get (.key keyA))=some last :=
  ⟨_,_,rfl,rfl,once_in_order calm ∅ [.lifecycle (.init 0),.lifecycle (.add 1 keyA .u8),
    .lifecycle (.load fun _ => ⟨[],0⟩)]
    [.lifecycle (.load fun subtree => ⟨[],if subtree=.value then 5 else 0⟩),
      .lifecycle (.add 2 (keyWithPrefix .value keyA) .bool)] (.get (.key keyA)) trivial _ _ _
    rfl rfl rfl⟩

end UserSettings.Contract
