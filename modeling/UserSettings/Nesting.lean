import UserSettings.Moves

/-!
# Nested set calls

A set call runs callbacks between its two writes, and these make set calls of
their own. While a call is under way its setting is open. A condition on set
calls is asked of every call that writes, at any depth, in the state it is
made in; a relation that one call has once its callbacks have it then holds of
the outermost call, by induction over the tree of calls.
-/

namespace UserSettings.Nesting

open Bytes Settings Storage Store Effects Setters Reactions Operations Transition Device Moves

/-- A condition on a set call: the keys of the settings that are open, the
callbacks of the call, the state, the record, the data and its length. -/
abbrev CallCondition := List CString → Callbacks → World → UserSetting → Pointer → ℕ → Prop

/-- A set call meets a condition if it writes, and so do the calls its callbacks
make, in the states they are made in and with its setting open. -/
def SetMeets (C : CallCondition) (cb : Callbacks)
    (globalMeets ownMeets : List CString → World → Prop) (opened : List CString) (w : World)
    (s : UserSetting) (pointer : Pointer) (len : ℕ) : Prop :=
  Writes s (pointer w) len → C opened cb w s pointer len ∧
    (len≠0 →
      let written := w.modify s.key (storeValue (bytesAt (pointer w) len))
      let told := notifyGlobal cb written s
      ((written.globalOnChangeCb.isSome && written.isLoaded)=true →
          globalMeets (s.key::opened) (written.notify .global s)) ∧
        ((s.onChangeCb.isSome && told.isLoaded)=true →
          ownMeets (s.key::opened) (told.notify .own s)))

mutual

/-- A call of a callback meets a condition, given the settings that are open. -/
def ReactionMeets (C : CallCondition) (env : Env) : Reaction → List CString → World → Prop
  | .set target pointer len onGlobal onOwn,opened,w =>
    ∀ s,w.find target=some s →
      SetMeets C ⟨Reaction.execAll env onGlobal,Reaction.execAll env onOwn⟩
        (ReactionsMeet C env onGlobal) (ReactionsMeet C env onOwn) opened w s pointer len

/-- The calls of a callback meet a condition, each in the state before it. -/
def ReactionsMeet (C : CallCondition) (env : Env) : List Reaction → List CString → World → Prop
  | [],_,_ => True
  | reaction::rest,opened,w =>
    ReactionMeets C env reaction opened w ∧
      ReactionsMeet C env rest opened (Reaction.exec env reaction w)

end

/-- The calls that the application's callbacks make meet a condition. -/
def CallbacksMeet (C : CallCondition) (env : Env) (opened : List CString) (u : World) : Prop :=
  ReactionsMeet C env (env.react u.trace.length) opened u

/-- A set call of the application meets a condition, with all calls nested in it. -/
def CallMeets (C : CallCondition) (env : Env) (w : World) (s : UserSetting) (pointer : Pointer)
    (len : ℕ) : Prop :=
  SetMeets C env.callbacks (CallbacksMeet C env) (CallbacksMeet C env) [] w s pointer len

/-- The set calls of a move meet a condition. A repeated load, which calls the
callbacks for every entry, is not considered. -/
def MoveMeets (C : CallCondition) (env : Env) (w : World) : Move → Prop
  | .call target (.set data len) =>
    ∀ s,w.find target=some s → CallMeets C env w s (fun _ => data) len
  | .call target .restoreDefault => ∀ s,w.find target=some s → s.isSet=true →
    CallMeets C env w s (fun _ => s.defaultData.mem) s.defaultDataLen
  | .call _ (.setDefault ..) | .call _ .setChanged | .call _ .clearChanged | .reboot => True
  | .load => False

/-- The set calls of an action meet a condition, each in the state before it. -/
def ActionMeets (C : CallCondition) (env : Env) (setup : Setup) (w : World) (action : Action) :
    Prop := Meets (moveStep env setup) (MoveMeets C env) w (action.moves env w)

/-- What reaches a device, or a set call with a pointer to memory that may
change while the call runs. -/
inductive Pointed (α : Type) where
  /-- Any operation. -/
  | op (op : α)
  /-- A set call. -/
  | setFrom (target : Target) (pointer : Pointer) (len : ℕ)

variable {α : Type}

/-- A step; a fault has no next state. -/
def pointedStep (env : Env) (step : World → α → Option World) (w : World) :
    Pointed α → Option World
  | .op op => step w op
  | .setFrom target pointer len =>
    (userSettingsSetFrom env w target pointer len).toOption.map Prod.fst

/-- The set calls of a step meet a condition; for an operation it is given. -/
def PointedMeets (C : CallCondition) (env : Env) (meets : World → α → Prop) (w : World) :
    Pointed α → Prop
  | .op op => meets w op
  | .setFrom target pointer len => ∀ s,w.find target=some s → CallMeets C env w s pointer len

/-- A relation between the states before and after, for every list of open
settings, which a call has that meets the condition once its callbacks have it. -/
structure Nests (env : Env) (C : CallCondition) (R : List CString → World → World → Prop) :
    Prop where
  /-- Nothing is related. -/
  refl : ∀ opened w,R opened w w
  /-- Two parts are related as one. -/
  trans : ∀ {opened u v w},R opened u v → R opened v w → R opened u w
  /-- A notification is related. -/
  notify : ∀ opened w kind s,R opened w (w.notify kind s)
  /-- A call that writes is related when its callbacks are. -/
  set : ∀ {opened cb w s pointer len},w.getByKey s.key=some s → Within env anyValue cb →
    Writes s (pointer w) len → C opened cb w s pointer len →
    (len≠0 → R (s.key::opened) (w.modify s.key (storeValue (bytesAt (pointer w) len)))
      (valueWritten cb w s (pointer w) len)) →
    R opened w (prvUserSettingsSetFrom env cb w s pointer len).1

variable {env : Env} {C : CallCondition} {R : List CString → World → World → Prop}
variable {w next : World} {s : UserSetting} {pointer : Pointer} {len : ℕ} {opened : List CString}
variable {cb : Callbacks} {globalMeets ownMeets : List CString → World → Prop}

/-- One call: its callbacks run with its setting open. -/
theorem set_rel (hR : Nests env C R) (hs : w.getByKey s.key=some s) (hcb : Within env anyValue cb)
    (hglobal : ∀ opened u,globalMeets opened u → R opened u (cb.global u))
    (hown : ∀ opened u,ownMeets opened u → R opened u (cb.own u))
    (h : SetMeets C cb globalMeets ownMeets opened w s pointer len) :
    R opened w (prvUserSettingsSetFrom env cb w s pointer len).1 := by
  by_cases hw : Writes s (pointer w) len
  · obtain ⟨hc,hnested⟩ := h hw
    refine hR.set hs hcb hw hc fun hn => ?_
    obtain ⟨hg,ho⟩ := hnested hn
    let written := w.modify s.key (storeValue (bytesAt (pointer w) len))
    let told := notifyGlobal cb written s
    have htold : R (s.key::opened) written told := by
      dsimp only [told]
      unfold notifyGlobal
      split
      · rename_i hcall
        exact hR.trans (hR.notify _ _ .global s) (hglobal _ _ (hg hcall))
      · exact hR.refl _ _
    have hdone : R (s.key::opened) told (notifyOwn cb told s) := by
      unfold notifyOwn
      split
      · rename_i hcall
        exact hR.trans (hR.notify _ _ .own s) (hown _ _ (ho hcall))
      · exact hR.refl _ _
    unfold valueWritten
    rw [if_neg hn]
    exact hR.trans htold hdone
  · rw [userSettingsSetFrom_keeps hw]
    exact hR.refl opened w

mutual

/-- A call of a callback that meets the condition, by induction over the tree. -/
theorem exec_rel (hR : Nests env C R) :
    ∀ (reaction : Reaction) (opened : List CString) (w : World),
      ReactionMeets C env reaction opened w → R opened w (Reaction.exec env reaction w)
  | .set target pointer len onGlobal onOwn,opened,w,h => by
    unfold Reaction.exec
    cases hf : w.find target with
    | none => exact hR.refl opened w
    | some s =>
      exact set_rel hR (getByKey_of_find hf) ⟨execAll_any onGlobal,execAll_any onOwn⟩
        (execAll_rel hR onGlobal) (execAll_rel hR onOwn) (h s hf)

/-- The calls of a callback, one after another. -/
theorem execAll_rel (hR : Nests env C R) :
    ∀ (reactions : List Reaction) (opened : List CString) (w : World),
      ReactionsMeet C env reactions opened w → R opened w (Reaction.execAll env reactions w)
  | [],opened,w,_ => hR.refl opened w
  | reaction::rest,opened,w,h => by
    unfold Reaction.execAll
    exact hR.trans (exec_rel hR reaction opened w h.1) (execAll_rel hR rest opened _ h.2)

end

/-- A set call of the application that meets the condition. -/
theorem call_rel (hR : Nests env C R) (hs : w.getByKey s.key=some s)
    (h : CallMeets C env w s pointer len) :
    R [] w (prvUserSettingsSetFrom env env.callbacks w s pointer len).1 :=
  set_rel hR hs callbacks_within_any (fun opened u hu => execAll_rel hR _ opened u hu)
    (fun opened u hu => execAll_rel hR _ opened u hu) h

/-- Setting a value as a step that meets the condition. -/
theorem setFrom_rel (hR : Nests env C R) {target : Target} {step : World → α → Option World}
    {meets : World → α → Prop} (hm : PointedMeets C env meets w (.setFrom target pointer len))
    (h : pointedStep env step w (.setFrom target pointer len)=some next) : R [] w next := by
  obtain ⟨result,hok,rfl⟩ := Option.map_eq_some_iff.mp h
  obtain ⟨_,s,hs,hr⟩ := withSetting_ok (toOption_eq_some.mp hok)
  rw [hr]
  exact call_rel hR (getByKey_of_find hs) (hm s hs)

/-- A call on one setting that meets the condition: the calls that are no set
calls are looked at for themselves. -/
theorem moveCall_rel (hR : Nests env C R) {setup : Setup} {target : Target} {call : SettingCall}
    (hdefault : ∀ data len s,w.getByKey s.key=some s →
      R [] w (prvUserSettingsSetDefault env env.callbacks w s data len).1)
    (hflag : ∀ flag s,w.getByKey s.key=some s →
      R [] w (prvSetChangedRecentlyFlag env env.callbacks w s flag).1)
    (hm : MoveMeets C env w (.call target call))
    (h : moveStep env setup w (.call target call)=some next) : R [] w next := by
  obtain ⟨_,s,hf,rfl⟩ := moveStep_call.mp h
  have hs := getByKey_of_find hf
  cases call with
  | set data len => exact call_rel hR hs (hm s hf)
  | setDefault data len => exact hdefault data len s hs
  | restoreDefault =>
    change R [] w (prvSettingsRestore env env.callbacks w s)
    unfold prvSettingsRestore
    split
    · rename_i hi
      exact call_rel hR hs (hm s hf hi)
    · exact hR.refl [] w
  | setChanged => exact hflag true s hs
  | clearChanged => exact hflag false s hs

variable {setup : Setup} {I : World → Prop}

/-- An invariant of the moves that meet the condition is one of the actions. -/
theorem action_preserves (hI : Preserves (moveStep env setup) (MoveMeets C env) I) :
    Preserves (actionStep env setup) (ActionMeets C env setup) I :=
  fun _ _ _ hw hm hs => run_invariant hI hw hm (run_moves hs)

/-- An invariant of the operations and of the set calls with a pointer is one
of both together. -/
theorem pointed_preserves {step : World → α → Option World} {meets : World → α → Prop}
    (hI : Preserves step meets I)
    (hset : ∀ w target pointer len next,I w →
      PointedMeets C env meets w (.setFrom target pointer len) →
      pointedStep env step w (.setFrom target pointer len)=some next → I next) :
    Preserves (pointedStep env step) (PointedMeets C env meets) I := by
  intro w op next hw hm hs
  cases op with
  | op op => exact hI w op next hw hm hs
  | setFrom target pointer len => exact hset w target pointer len next hw hm hs

/-- The bytes that a call stores, read after its callbacks, are those it checked
and wrote to RAM. -/
def Steady : CallCondition := fun _ cb w s pointer len =>
  bytesAt (pointer (valueWritten cb w s (pointer w) len)) len=bytesAt (pointer w) len

/-- A pointer to memory that nothing changes. -/
def Fixed (pointer : Pointer) : Prop := ∀ u v,pointer u=pointer v

/-- Data that nothing changes is steady. -/
theorem steady_fixed (h : Fixed pointer) : Steady opened cb w s pointer len :=
  congrArg (fun data => bytesAt data len) (h _ _)

mutual

/-- So are the calls of a tree whose data nothing changes. -/
theorem reactionMeets_fixed (env : Env) :
    ∀ (reaction : Reaction) (opened : List CString) (w : World),
      Each (fun _ pointer _ => Fixed pointer) reaction →
      ReactionMeets Steady env reaction opened w
  | .set _ _ _ onGlobal onOwn,_,_,⟨hfixed,hglobal,hown⟩ => fun _ _ _ =>
    ⟨steady_fixed hfixed,fun _ => ⟨fun _ => reactionsMeet_fixed env onGlobal _ _ hglobal,
      fun _ => reactionsMeet_fixed env onOwn _ _ hown⟩⟩

/-- So are the calls of a callback. -/
theorem reactionsMeet_fixed (env : Env) :
    ∀ (reactions : List Reaction) (opened : List CString) (w : World),
      EachAll (fun _ pointer _ => Fixed pointer) reactions →
      ReactionsMeet Steady env reactions opened w
  | [],_,_,_ => trivial
  | reaction::rest,opened,w,⟨hone,hrest⟩ =>
    ⟨reactionMeets_fixed env reaction opened w hone,reactionsMeet_fixed env rest opened _ hrest⟩

end

/-- The application gives all calls of its callbacks data that nothing changes. -/
def GivesFixed (env : Env) : Prop := ∀ n,EachAll (fun _ pointer _ => Fixed pointer) (env.react n)

/-- A set call of the application with such data. -/
theorem callMeets_fixed (henv : GivesFixed env) (h : Fixed pointer) :
    CallMeets Steady env w s pointer len := fun _ =>
  ⟨steady_fixed h,fun _ => ⟨fun _ => reactionsMeet_fixed env _ _ _ (henv _),
    fun _ => reactionsMeet_fixed env _ _ _ (henv _)⟩⟩

/-- A move other than a load. -/
theorem moveMeets_fixed (henv : GivesFixed env) {move : Move} (h : move≠.load) (w : World) :
    MoveMeets Steady env w move := by
  have hfixed : ∀ data : Mem,Fixed fun _ => data := fun _ _ _ => rfl
  cases move with
  | call target call =>
    cases call with
    | set data len => exact fun _ _ => callMeets_fixed henv (hfixed data)
    | restoreDefault => exact fun s _ _ => callMeets_fixed henv (hfixed s.defaultData.mem)
    | setDefault | setChanged | clearChanged => trivial
  | load => exact absurd rfl h
  | reboot => trivial

/-- An operation of a device is no load. -/
theorem moves_ne_load (w : World) (op : DeviceOp) :
    ∀ move∈(Action.device op).moves env w,move≠.load := by
  have hcalls : OnlyCalls (.device op) → ∀ move∈(Action.device op).moves env w,move≠.load := by
    rintro h _ hm rfl
    exact moves_calls h w _ hm
  cases op with
  | store | json | binary => exact hcalls trivial
  | reboot =>
    rintro _ hm rfl
    cases List.mem_singleton.mp hm

/-- An operation of a device. -/
theorem actionMeets_fixed (henv : GivesFixed env) (setup : Setup) (w : World) (op : DeviceOp) :
    ActionMeets Steady env setup w (.device op) :=
  meets_imp (I:=fun _ => True) (fun _ _ _ _ _ _ => trivial)
    (fun u _ _ hc => moveMeets_fixed henv hc.1 u) trivial
    (meets_and (moves_ne_load w op) (meets_of_forall (C:=fun _ _ => True) (fun _ _ => trivial) w _))

/-- The memory behind the pointer that a getter returns for a setting that is
set: the value buffer of the record, whatever it holds later. -/
def valueBehind (key : CString) : Pointer := fun w =>
  match w.getByKey key with
  | none => memOf []
  | some s => s.data.mem

/-- The getter returns this pointer. -/
theorem get_valueBehind {key : CString} (hl : w.isLoaded=true) (hs : w.getByKey key=some s)
    (hset : s.isSet=true) :
    userSettingsGet w (.key key)=.ok (some (valueBehind key w,s.dataLen)) := by
  have hfind : w.find (.key key)=some s := hs
  unfold userSettingsGet
  rw [withSetting_eq hl hfind]
  unfold prvUserSettingGet valueBehind
  rw [if_pos hset,hs]

end UserSettings.Nesting
