import UserSettings.Cursor
import UserSettings.History
import UserSettings.Iteration
import UserSettings.Lifecycle

/-!
# Iterations over a list that grows

Any number of contexts are started and moved on, in any order, while the
application does anything else with the module: it adds settings, sets and
clears flags, loads, writes values. A context is a cursor on the list, and the
list only grows at its end, so what a context returns depends on its own calls
and on the list, whatever is done with other contexts.
-/

namespace UserSettings.Traversal

open Bytes Settings Storage Store Effects Load Operations Transition Lifecycle Iteration
open Cursor

/-- Key and identifier, which tell an application the setting. -/
def named (s : UserSetting) : CString×UInt16 := (s.key,s.id)

/-- The functions that return the next setting of an iteration. -/
inductive IterFn where
  /-- Inside the library, by a pointer. -/
  | listNext
  /-- For the application. -/
  | next
  /-- For the application, changed settings only. -/
  | nextChanged

/-- Call a function with a context. -/
def IterFn.exec (list : SettingsList) (ctx : UserSettingsIterCtx) :
    IterFn → UserSettingsIterCtx×Option (CString×UInt16)
  | .listNext =>
    let next := userSettingsListIterNext list ctx
    (next.1,next.2.map named)
  | .next => userSettingsIterNext list ctx
  | .nextChanged => userSettingsIterNextChanged list ctx

/-- The settings a function looks for. -/
def IterFn.wants : IterFn → UserSetting → Bool
  | .listNext,_ | .next,_ => true
  | .nextChanged,s => s.hasChangedRecently

/-- The module and the contexts that were started. -/
structure IterState (κ : Type*) where
  /-- The module. -/
  world : World
  /-- The contexts; one that was never started holds no values. -/
  ctxs : κ → Option UserSettingsIterCtx

/-- A device that was never started, with contexts that were never started. -/
def IterState.unstarted (κ : Type*) (nvs : Entries) : IterState κ :=
  ⟨World.unstarted nvs,fun _ => none⟩

/-- What may happen. -/
inductive IterEvent (κ : Type*) where
  /-- A context is started. -/
  | start (c : κ)
  /-- A function is called with a context. -/
  | call (c : κ) (fn : IterFn)
  /-- Anything else that the application does with the module. -/
  | other (op : LifecycleOp)

variable {κ : Type*} [DecidableEq κ]

/-- One step; a call with a context that was never started has none. -/
def iterStep (env : Env) (st : IterState κ) : IterEvent κ → Option (IterState κ)
  | .start c => some {st with ctxs := Function.update st.ctxs c (some userSettingsListIterStart)}
  | .call c fn => (st.ctxs c).map fun ctx =>
    {st with ctxs := Function.update st.ctxs c (some (fn.exec st.world.list ctx).1)}
  | .other op => (lifecycleStep env st.world op).map fun w => {st with world := w}

/-- What is recorded of the calls with one context: the settings looked for,
the list at the time of the call and the result. -/
def looksOf (c : κ) (st : IterState κ) : IterEvent κ → List (Look UserSetting (CString×UInt16))
  | .call other fn =>
    if other=c then
      match st.ctxs c with
      | none => []
      | some ctx => [⟨fn.wants,st.world.list.items,(fn.exec st.world.list ctx).2⟩]
    else []
  | .start _ | .other _ => []

/-- Where a context stands: behind its node, at the start, or at the end. -/
def place (ctx : UserSettingsIterCtx) : Option ℕ :=
  match ctx.iterListNode with
  | none => if ctx.iterStart then some 0 else none
  | some node => some (node+1)

section Context

variable (list : SettingsList) (ctx : UserSettingsIterCtx)

/-- A call returns the element where the context stands. -/
theorem iterNext_element :
    (userSettingsListIterNext list ctx).2=(place ctx).bind fun k => list.items[k]? := by
  rw [iterNext_result]
  unfold pending place
  cases ctx.iterListNode with
  | none =>
    dsimp only
    cases ctx.iterStart with
    | true => exact List.head?_eq_getElem?
    | false => rfl
  | some node => exact List.head?_drop

/-- A call moves the context behind that element, or to the end. -/
theorem iterNext_place : place (userSettingsListIterNext list ctx).1=
    (place ctx).bind fun k => if k<list.items.length then some (k+1) else none := by
  obtain ⟨node,start,hstart⟩ := ctx
  cases start with
  | true =>
    cases hstart rfl
    change place ⟨sysSlistPeekHead list,false,_⟩=if 0<list.items.length then some 1 else none
    unfold sysSlistPeekHead place
    split
    · rename_i hnode
      split at hnode
      · cases hnode
      · rename_i hempty
        exact (if_neg hempty).symm
    · rename_i node hnode
      split at hnode
      · rename_i hp
        cases hnode
        exact (if_pos hp).symm
      · cases hnode
  | false =>
    cases node with
    | none => rfl
    | some node =>
      change place ⟨sysSlistPeekNext list (some node),false,_⟩=
        if node+1<list.items.length then some (node+1+1) else none
      unfold place
      dsimp only [sysSlistPeekNext]
      by_cases hp : node+1<list.items.length
      · rw [if_pos hp,if_pos hp]
      · rw [if_neg hp,if_neg hp]
        rfl

/-- Taking items until one is marked finds what a cursor finds. -/
theorem iterNextFlagged_found :
    (iterNextFlagged list ctx).2=
        ((place ctx).bind (seek UserSetting.hasChangedRecently list.items)).bind
          (fun j => list.items[j]?) ∧
      place (iterNextFlagged list ctx).1=
        ((place ctx).bind (seek UserSetting.hasChangedRecently list.items)).map (·+1) := by
  fun_induction iterNextFlagged list ctx with
  | case1 ctx h =>
    have hnext := iterNext_place list ctx
    rw [iterNext_element] at h
    cases hk : place ctx with
    | none =>
      rw [hk] at hnext
      exact ⟨rfl,hnext⟩
    | some k =>
      rw [hk,Option.bind_some] at h hnext
      rw [Option.bind_some,seek_eq,h]
      rw [if_neg (by simpa using h)] at hnext
      exact ⟨rfl,hnext⟩
  | case2 ctx s h hflag =>
    have hnext := iterNext_place list ctx
    rw [iterNext_element] at h
    obtain ⟨k,hk,hitem⟩ := Option.bind_eq_some_iff.mp h
    obtain ⟨hlt,_⟩ := List.getElem?_eq_some_iff.mp hitem
    rw [hk,Option.bind_some,if_pos hlt] at hnext
    rw [hk,Option.bind_some,seek_eq,hitem]
    dsimp only
    rw [if_pos hflag]
    exact ⟨hitem.symm,hnext⟩
  | case3 ctx s h hflag ih =>
    have hnext := iterNext_place list ctx
    rw [iterNext_element] at h
    obtain ⟨k,hk,hitem⟩ := Option.bind_eq_some_iff.mp h
    obtain ⟨hlt,_⟩ := List.getElem?_eq_some_iff.mp hitem
    rw [hk,Option.bind_some,if_pos hlt] at hnext
    have hseek : seek UserSetting.hasChangedRecently list.items k=
        seek UserSetting.hasChangedRecently list.items (k+1) := by
      rw [seek_eq,hitem]
      exact if_neg hflag
    rw [hnext,Option.bind_some,←hseek] at ih
    rw [hk,Option.bind_some]
    exact ih

/-- A call that takes the next element finds what a cursor finds that wants
everything. -/
theorem iterNext_found :
    (userSettingsListIterNext list ctx).2=
        ((place ctx).bind (seek (fun _ => true) list.items)).bind (fun j => list.items[j]?) ∧
      place (userSettingsListIterNext list ctx).1=
        ((place ctx).bind (seek (fun _ => true) list.items)).map (·+1) := by
  rw [iterNext_element,iterNext_place]
  cases place ctx with
  | none => exact ⟨rfl,rfl⟩
  | some k =>
    simp only [Option.bind_some]
    rw [seek_all fun _ => rfl]
    split
    · exact ⟨rfl,rfl⟩
    · exact ⟨List.getElem?_eq_none (by omega),rfl⟩

/-- Every function finds what a cursor finds, and leaves the context behind it. -/
theorem exec_found (fn : IterFn) :
    (fn.exec list ctx).2=(((place ctx).bind (seek fn.wants list.items)).bind
        fun j => list.items[j]?).map named ∧
      place (fn.exec list ctx).1=((place ctx).bind (seek fn.wants list.items)).map (·+1) := by
  cases fn with
  | listNext | next =>
    obtain ⟨hresult,hplace⟩ := iterNext_found list ctx
    exact ⟨congrArg (Option.map named) hresult,hplace⟩
  | nextChanged =>
    obtain ⟨hresult,hplace⟩ := iterNextFlagged_found list ctx
    exact ⟨congrArg (Option.map named) hresult,hplace⟩

end Context

/-- The settings of the module, in the order in which they were registered. -/
def names (w : World) : List (CString×UInt16) := w.list.items.map named

/-- Settings are only added, and only to a module that is initialized. -/
structure Grows (w next : World) : Prop where
  /-- The settings before are the first ones. -/
  names : names w<+:names next
  /-- Without initialization there are none. -/
  empty : next.isInited=false → next.list.items=[]

variable {env : Env} {w next : World}

/-- Names are distinct. -/
theorem names_nodup (w : World) : (names w).Nodup := by
  have hkeys : (names w).map Prod.fst=w.list.items.map UserSetting.key := List.map_map
  refine List.Nodup.of_map Prod.fst ?_
  rw [hkeys]
  exact w.list.keysNodup

/-- Names are part of what was registered. -/
theorem names_of_registrations (h : registrations next=registrations w) : names next=names w := by
  have hnames : ∀ v : World,names v=(registrations v).map fun r => (r.key,r.id) := by
    intro v
    unfold registrations
    rw [List.map_map]
    rfl
  rw [hnames,hnames,h]

/-- A change of a record keeps its name. -/
theorem names_modify (w : World) (key : CString) (u : Update) :
    names (w.modify key u)=names w := by
  unfold names World.modify SettingsList.modify
  dsimp only
  rw [List.map_map]
  refine List.map_congr_left fun s _ => ?_
  rw [Function.comp_apply]
  split
  · exact Prod.ext (u.key_apply s) (u.id_apply s)
  · rfl

variable (env) in
/-- A delivery of an entry keeps the names. -/
theorem names_hSet (subtree : Subtree) (key : CString) (len : ℕ) (readCb : ReadCb) :
    names (hSet env.callbacks w subtree key len readCb).1=names w ∧
      (hSet env.callbacks w subtree key len readCb).1.isInited=w.isInited := by
  rcases hSet_cases env.callbacks w subtree key len readCb with h|⟨s,bytes,_,h|⟨_,h⟩⟩ <;> rw [h]
  · exact ⟨rfl,rfl⟩
  · exact ⟨names_modify w key _,rfl⟩
  · have hsame := (notified_effects env (w.modify key (loadUpdate subtree bytes)) s).sameSetup
    exact ⟨(names_of_registrations hsame.regs).trans (names_modify w key _),hsame.isInited⟩

/-- A load keeps the names. -/
theorem names_load {backend : Subtree → Loading} {ret : ℤ}
    (h : userSettingsLoad env w backend=.ok (next,ret)) :
    names next=names w ∧ next.isInited=w.isInited := by
  let Kept := fun v : World => names v=names w ∧ v.isInited=w.isInited
  refine load_keeps (P:=Kept) (fun subtree u hu => ?_) (fun _ hu => hu) ⟨rfl,rfl⟩ h
  refine loadSubtree_keeps (P:=Kept) (fun d _ v hv => ?_) hu
  obtain ⟨hnames,hinited⟩ : names _=names v ∧ _ := names_hSet env subtree d.key d.len d.readCb
  exact ⟨hnames.trans hv.1,hinited.trans hv.2⟩

/-- Adding a setting appends its name. -/
theorem names_listAdd {id : UInt16} {key : CString} {type : UserSettingType} {size : ℕ}
    {list : SettingsList} (h : prvUserSettingsListAdd w.list id key type size=.ok list) :
    names w<+:names {w with list := list} := by
  unfold prvUserSettingsListAdd at h
  split at h
  · cases h
    unfold names
    rw [List.map_append]
    exact List.prefix_append _ _
  · cases h

/-- Everything the application does with the module adds settings at most. -/
theorem lifecycleStep_grows {op : LifecycleOp} (hempty : w.isInited=false → w.list.items=[])
    (h : lifecycleStep env w op=some next) : Grows w next := by
  have hinited : ∀ {v : World},v.isInited=true → v.isInited=false → v.list.items=[] := by
    intro v htrue hfalse
    rw [htrue] at hfalse
    cases hfalse
  cases lifecycleStep_cases h with
  | initialized hnot hlist =>
    have hnone : names w=[] := by
      unfold names
      rw [hempty hnot]
      rfl
    exact ⟨hnone ▸ List.nil_prefix,fun _ => by rw [hlist]; rfl⟩
  | added hc hadd hnext =>
    rw [hnext]
    exact ⟨names_listAdd hadd,hinited hc⟩
  | registered hc _ hnext =>
    rw [hnext]
    exact ⟨(names_modify w _ _).symm ▸ List.prefix_refl _,hinited hc⟩
  | kept hc hlist =>
    have hsame : names next=names w := congrArg (fun list => list.items.map named) hlist
    exact ⟨hsame ▸ List.prefix_refl _,hinited hc⟩
  | loaded hc hload =>
    obtain ⟨hnames,hsame⟩ := names_load hload
    exact ⟨hnames ▸ List.prefix_refl _,hinited (hsame.trans hc)⟩
  | called hstep =>
    have hsame := (step_effects hstep).sameSetup
    have hnames := names_of_registrations hsame.regs
    refine ⟨hnames ▸ List.prefix_refl _,fun hnot => ?_⟩
    have hnone := hempty (hsame.isInited.symm.trans hnot)
    unfold names at hnames
    rw [hnone] at hnames
    exact List.map_eq_nil_iff.mp hnames

/-- What holds of the calls with a context along a run in which it is not
started: they follow the cursor from where the context stands, each finds a
first part of the list that is there in the end. -/
structure Traverses (c : κ) (env : Env) (start : Option ℕ) (st final : IterState κ)
    (events : List (IterEvent κ)) : Prop where
  /-- The calls follow the cursor. -/
  follows : Follows named start (outputs (iterStep env) (looksOf c) st events)
  /-- The lists they find have grown since. -/
  found : ∀ look∈outputs (iterStep env) (looksOf c) st events,
    look.items.map named<+:names final.world
  /-- So has the list of the beginning. -/
  grown : names st.world<+:names final.world

/-- A run in which a context is not started moves it like a cursor. -/
theorem run_traverses {c : κ} {ctx : UserSettingsIterCtx} {st final : IterState κ}
    {events : List (IterEvent κ)} (hempty : st.world.isInited=false → st.world.list.items=[])
    (hctx : st.ctxs c=some ctx) (hlast : ∀ event∈events,event≠.start c)
    (h : run (iterStep env) st events=some final) :
    Traverses c env (place ctx) st final events := by
  induction events generalizing st ctx with
  | nil =>
    cases Option.some.inj h
    exact ⟨trivial,fun _ hlook => (List.not_mem_nil hlook).elim,List.prefix_refl _⟩
  | cons event rest ih =>
    obtain ⟨next,hs,hrun⟩ := run_cons.mp h
    have hevent := hlast event List.mem_cons_self
    have hrest : ∀ later∈rest,later≠.start c :=
      fun later hlater => hlast later (List.mem_cons_of_mem event hlater)
    -- an event that makes no call with the context leaves it where it is
    have hskip : looksOf c st event=[] → next.ctxs c=some ctx → Grows st.world next.world →
        Traverses c env (place ctx) st final (event::rest) := by
      intro hnone hsame hgrows
      have hbehind := ih hgrows.empty hsame hrest hrun
      refine ⟨?_,?_,hgrows.names.trans hbehind.grown⟩ <;>
        rw [outputs_cons hs,hnone,List.nil_append]
      · exact hbehind.follows
      · exact hbehind.found
    cases event with
    | start d =>
      have hne : c≠d := fun he => hevent (he ▸ rfl)
      cases Option.some.inj hs
      exact hskip rfl ((Function.update_of_ne hne _ _).trans hctx) ⟨List.prefix_refl _,hempty⟩
    | call d fn =>
      obtain ⟨other,hother,hnext⟩ := Option.map_eq_some_iff.mp hs
      cases hnext
      by_cases hd : d=c
      · subst hd
        cases hctx.symm.trans hother
        obtain ⟨hresult,hplace⟩ := exec_found st.world.list ctx fn
        have hbehind : Traverses d env (place (fn.exec st.world.list ctx).1)
            {st with ctxs := Function.update st.ctxs d (some (fn.exec st.world.list ctx).1)}
            final rest := ih hempty (Function.update_self d _ _) hrest hrun
        have hlook : looksOf d st (.call d fn)=
            [⟨fn.wants,st.world.list.items,(fn.exec st.world.list ctx).2⟩] := by
          unfold looksOf
          dsimp only
          rw [if_pos rfl,hctx]
        refine ⟨?_,?_,hbehind.grown⟩ <;> rw [outputs_cons hs,hlook,List.singleton_append]
        · refine ⟨hresult,?_⟩
          rw [hplace] at hbehind
          exact hbehind.follows
        · intro look hmem
          rcases List.mem_cons.mp hmem with rfl|hlater
          · exact hbehind.grown
          · exact hbehind.found look hlater
      · exact hskip (if_neg hd) ((Function.update_of_ne (Ne.symm hd) _ _).trans hctx)
          ⟨List.prefix_refl _,hempty⟩
    | other op =>
      obtain ⟨moved,hmoved,hnext⟩ := Option.map_eq_some_iff.mp hs
      cases hnext
      exact hskip rfl hctx (lifecycleStep_grows hempty hmoved)

/-- Along a run settings are only added. -/
theorem run_empty {st final : IterState κ} {events : List (IterEvent κ)}
    (hempty : st.world.isInited=false → st.world.list.items=[])
    (h : run (iterStep env) st events=some final) :
    final.world.isInited=false → final.world.list.items=[] := by
  refine run_invariant_always (I:=fun st : IterState κ =>
    st.world.isInited=false → st.world.list.items=[]) (fun st event next hst hs => ?_) hempty h
  cases event with
  | start c =>
    cases Option.some.inj hs
    exact hst
  | call c fn =>
    obtain ⟨ctx,_,rfl⟩ := Option.map_eq_some_iff.mp hs
    exact hst
  | other op =>
    obtain ⟨moved,hmoved,rfl⟩ := Option.map_eq_some_iff.mp hs
    exact (lifecycleStep_grows hst hmoved).empty

/-- For any number of contexts, everything an application does with the module
and every order of all this: from the last start of a context on, whatever is
done with other contexts, its calls return the settings by their positions in
the list, from the first one on and none twice; the function for changed
settings returns the next one that is marked when it is called; after the first
call that finds nothing none returns anything. The lists that the calls find
are first parts of the list that is there in the end. -/
theorem iteration_exact {env : Env} {nvs : Entries} {before after : List (IterEvent κ)} {c : κ}
    {started final : IterState κ}
    (hstart : run (iterStep env) (IterState.unstarted κ nvs) (before++[.start c])=some started)
    (hrun : run (iterStep env) started after=some final)
    (hlast : ∀ event∈after,event≠.start c) :
    Iterates named (outputs (iterStep env) (looksOf c) started after) ∧
      ∀ look∈outputs (iterStep env) (looksOf c) started after,
        look.items.map named<+:names final.world := by
  have hempty := run_empty (fun _ => rfl) hstart
  have hctx : started.ctxs c=some userSettingsListIterStart := by
    rw [run_append] at hstart
    obtain ⟨middle,_,hone⟩ := Option.bind_eq_some_iff.mp hstart
    obtain ⟨next,hs,hnil⟩ := run_cons.mp hone
    cases Option.some.inj hs
    cases Option.some.inj hnil
    exact Function.update_self c _ _
  have htraverses := run_traverses hempty hctx hlast hrun
  refine ⟨htraverses.follows.iterates fun look hlook => ?_,htraverses.found⟩
  obtain ⟨rest,hgrown⟩ := htraverses.found look hlook
  exact (List.nodup_append.mp (hgrown ▸ names_nodup final.world)).1

/-- One context comes to its end and stays there while a setting is added; the
other one then returns this setting. -/
def twoContexts : List (IterEvent Bool) :=
  [.call true .listNext,.call true .next,
    .other (.addSized 2 ⟨CString.ascii ['g'],by decide⟩ .str 4),.call true .next,
    .other (.load (loadingOf [])),.other (.store (.setChanged (.id 2))),.call false .nextChanged]

/-- Two contexts on a list that grows. -/
theorem iteration_of_two_contexts : ∃ started final : IterState Bool,
    run (iterStep calm) (IterState.unstarted Bool ∅)
      ([.other (.init 0),.other (.add 1 keyA .u8),.start false,.call false .next]++[.start true])=
        some started ∧
    run (iterStep calm) started twoContexts=some final ∧
    (outputs (iterStep calm) (looksOf true) started twoContexts).map Look.result=
      [some (keyA,1),none,none] ∧
    Iterates named (outputs (iterStep calm) (looksOf true) started twoContexts) ∧
      ∀ look∈outputs (iterStep calm) (looksOf true) started twoContexts,
        look.items.map named<+:names final.world := by
  have hlast : ∀ event∈twoContexts,event≠.start true := by simp [twoContexts]
  exact ⟨_,_,rfl,rfl,rfl,iteration_exact
    (show run (iterStep calm) (IterState.unstarted Bool ∅) ([.other (.init 0),
      .other (.add 1 keyA .u8),.start false,.call false .next]++[.start true])=some _ from rfl)
    rfl hlast⟩

end UserSettings.Traversal
