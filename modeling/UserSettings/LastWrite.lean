import UserSettings.Outcomes

/-!
# What callbacks write last

Callbacks make set calls, whose callbacks make set calls again. The value that
a setting has in RAM behind all of them is that of the last call that wrote to
it, which is found by following the tree of calls.
-/

namespace UserSettings.LastWrite

open Bytes Settings Storage Store Effects Setters Reactions Cells Outcomes

/-- The last bytes among those that the two callbacks write when a set call
notifies them. -/
def lastBehind (cb : Callbacks) (globalLast ownLast : World → Option (List UInt8)) (w : World)
    (s : UserSetting) (data : Mem) (len : ℕ) : Option (List UInt8) :=
  let written := w.modify s.key (storeValue (bytesAt data len))
  let told := notifyGlobal cb written s
  let global := if written.globalOnChangeCb.isSome && written.isLoaded
    then globalLast (written.notify .global s) else none
  let own := if s.onChangeCb.isSome && told.isLoaded then ownLast (told.notify .own s) else none
  own.or global

mutual

/-- The last bytes that a call of a callback writes to a setting, itself or
through the callbacks that it notifies. -/
def lastWrite (env : Env) (key : CString) : Reaction → World → Option (List UInt8)
  | .set target p len onGlobal onOwn,w =>
    match w.find target with
    | none => none
    | some s =>
      if Writes s (p w) len ∧ len≠0 then
        (lastBehind ⟨Reaction.execAll env onGlobal,Reaction.execAll env onOwn⟩
          (lastWriteAll env key onGlobal) (lastWriteAll env key onOwn) w s (p w) len).or
            (if key=s.key then some (bytesAt (p w) len) else none)
      else none

/-- The last bytes that the calls of a callback write to a setting. -/
def lastWriteAll (env : Env) (key : CString) : List Reaction → World → Option (List UInt8)
  | [],_ => none
  | reaction::rest,w =>
    (lastWriteAll env key rest (Reaction.exec env reaction w)).or (lastWrite env key reaction w)

end

/-- The last bytes that a callback of the application writes to a setting when
it is notified. -/
def lastOfCallback (env : Env) (key : CString) (w : World) : Option (List UInt8) :=
  lastWriteAll env key (env.react w.trace.length) w

/-- The last bytes that callbacks write to a setting while a set call on it runs. -/
def callbacksWrite (env : Env) (w : World) (s : UserSetting) (data : Mem) (len : ℕ) :
    Option (List UInt8) :=
  lastBehind env.callbacks (lastOfCallback env s.key) (lastOfCallback env s.key) w s data len

variable {env : Env} {cb : Callbacks} {w : World} {s : UserSetting} {data : Mem} {p : Pointer}
  {len : ℕ} {key : CString}

section SetCall

variable {globalLast ownLast : World → Option (List UInt8)}
variable (hglobal : ∀ u,ram (cb.global u) (.value,key)=(globalLast u).or (ram u (.value,key)))
variable (hown : ∀ u,ram (cb.own u) (.value,key)=(ownLast u).or (ram u (.value,key)))
include hglobal hown

/-- Behind the write of a value to RAM and the callbacks the value is the last
one that they wrote. -/
theorem valueWritten_last (hn : len≠0) : ram (valueWritten cb w s data len) (.value,key)=
    (lastBehind cb globalLast ownLast w s data len).or
      (ram (w.modify s.key (storeValue (bytesAt data len))) (.value,key)) := by
  unfold valueWritten lastBehind
  rw [if_neg hn]
  let written := w.modify s.key (storeValue (bytesAt data len))
  let told := notifyGlobal cb written s
  have htold : ram told (.value,key)=(if written.globalOnChangeCb.isSome && written.isLoaded
      then globalLast (written.notify .global s) else none).or (ram written (.value,key)) := by
    dsimp only [told]
    unfold notifyGlobal
    split
    · exact hglobal _
    · rfl
  have hdone : ram (notifyOwn cb told s) (.value,key)=(if s.onChangeCb.isSome && told.isLoaded
      then ownLast (told.notify .own s) else none).or (ram told (.value,key)) := by
    unfold notifyOwn
    split
    · exact hown _
    · rfl
  rw [htold] at hdone
  exact hdone.trans (Option.or_assoc ..).symm

/-- Behind a set call the value is the last one that it or its callbacks wrote. -/
theorem set_last (hs : w.getByKey s.key=some s) (hcb : Within env anyValue cb) :
    ram (prvUserSettingsSetFrom env cb w s p len).1 (.value,key)=
      (if Writes s (p w) len ∧ len≠0 then
        (lastBehind cb globalLast ownLast w s (p w) len).or
          (if key=s.key then some (bytesAt (p w) len) else none)
      else none).or (ram w (.value,key)) := by
  by_cases hw : Writes s (p w) len
  · have heffects := valueWritten_effects hcb hs hw.fits hw.valid fun _ => trivial
    obtain ⟨t,ht,hr⟩ := getByKey_of_registrations heffects.sameSetup.regs hs
    have hrec : (valueStoredFrom env cb w s p len).getByKey s.key=some t :=
      (saveOne_getByKey ..).trans ht
    -- storing the value and setting the flag leave the value in RAM
    have hset : ram (prvUserSettingsSetFrom env cb w s p len).1 (.value,key)=
        ram (valueWritten cb w s (p w) len) (.value,key) := by
      have hstored : ram (valueStoredFrom env cb w s p len)=ram (valueWritten cb w s (p w) len) :=
        ram_saveOne ..
      rw [userSettingsSetFrom_writes hs hw]
      dsimp only
      split
      · rw [hstored]
      · rw [deref_eq hrec]
        rw [←key_of_registration hr] at hrec
        have hne := cell_ne .value .changed (by decide) key t.key
        rw [(flag_cells hrec true).1,Function.update_of_ne hne,hstored]
    rw [hset]
    by_cases hn : len=0
    · rw [if_neg fun h => h.2 hn]
      unfold valueWritten
      rw [if_pos hn]
      rfl
    · have hfits : (bytesAt (p w) len).length ≤ s.maxSize := by
        rw [length_bytesAt]
        exact hw.fits
      rw [valueWritten_last hglobal hown hn,if_pos ⟨hw,hn⟩,Option.or_assoc,ram_storeValue hs hfits]
      congr 1
      by_cases hk : key=s.key
      · rw [hk,Function.update_self,if_pos rfl]
        rfl
      · rw [Function.update_of_ne (fun he => hk (Prod.mk.inj he).2),if_neg hk]
        rfl
  · rw [userSettingsSetFrom_keeps hw,if_neg fun h : _ ∧ _ => hw h.1]
    rfl

end SetCall

mutual

/-- One call of a callback, by induction over the tree. -/
theorem exec_last : ∀ (reaction : Reaction) (w : World),
    ram (Reaction.exec env reaction w) (.value,key)=
      (lastWrite env key reaction w).or (ram w (.value,key))
  | .set target p len onGlobal onOwn,w => by
    unfold Reaction.exec lastWrite
    cases hf : w.find target with
    | none => rfl
    | some s =>
      exact set_last (execAll_last onGlobal) (execAll_last onOwn) (getByKey_of_find hf)
        ⟨execAll_any onGlobal,execAll_any onOwn⟩

/-- The calls of a callback, one after another. -/
theorem execAll_last : ∀ (reactions : List Reaction) (w : World),
    ram (Reaction.execAll env reactions w) (.value,key)=
      (lastWriteAll env key reactions w).or (ram w (.value,key))
  | [],_ => rfl
  | reaction::rest,w => by
    unfold Reaction.execAll lastWriteAll
    rw [execAll_last rest,exec_last reaction w,Option.or_assoc]

end

/-- A value that is written to RAM is replaced by what callbacks write last. -/
theorem ram_callbacksWrite (hs : w.getByKey s.key=some s) (hf : len ≤ s.maxSize) (hn : len≠0) :
    ram (valueWritten env.callbacks w s data len) (.value,s.key)=
      some ((callbacksWrite env w s data len).getD (bytesAt data len)) := by
  have hfits : (bytesAt data len).length ≤ s.maxSize := by
    rw [length_bytesAt]
    exact hf
  have hglobal : ∀ u,ram (env.callbacks.global u) (.value,s.key)=
      (lastOfCallback env s.key u).or (ram u (.value,s.key)) := fun u => execAll_last _ u
  have hown : ∀ u,ram (env.callbacks.own u) (.value,s.key)=
      (lastOfCallback env s.key u).or (ram u (.value,s.key)) := fun u => execAll_last _ u
  have hlast : ram (valueWritten env.callbacks w s data len) (.value,s.key)=
      (callbacksWrite env w s data len).or _ :=
    valueWritten_last hglobal hown hn
  rw [hlast,ram_storeValue hs hfits,Function.update_self]
  cases callbacksWrite env w s data len <;> rfl

/-- Callbacks that make no calls write nothing. -/
theorem callbacksWrite_quiet (hq : ∀ n,env.react n=[]) (w : World) (s : UserSetting) (data : Mem)
    (len : ℕ) : callbacksWrite env w s data len=none := by
  unfold callbacksWrite lastBehind lastOfCallback
  dsimp only
  simp only [hq,lastWriteAll,ite_self,Option.or_self]

/-- The record that callbacks leave of a written value has it as its value if
and only if the last value that they write to it is no other. -/
theorem callbacks_leave_iff (hs : w.getByKey s.key=some s) (hf : len ≤ s.maxSize) (hn : len≠0)
    {t : UserSetting} (ht : (valueWritten env.callbacks w s data len).getByKey s.key=some t) :
    t.isSet=true ∧ (t.value=bytesAt data len ↔
      ∀ bytes,callbacksWrite env w s data len=some bytes → bytes=bytesAt data len) := by
  have hcell : content t .value=some _ :=
    (ram_eq ht .value).symm.trans (ram_callbacksWrite hs hf hn)
  unfold content at hcell
  dsimp only at hcell
  split at hcell
  · rename_i hset
    rw [Option.some.inj hcell]
    refine ⟨hset,?_⟩
    cases callbacksWrite env w s data len with
    | none =>
      refine iff_of_true rfl fun bytes h => ?_
      cases h
    | some last => exact ⟨fun h _ he => Option.some.inj he ▸ h,fun h => h last rfl⟩
  · cases hcell

end UserSettings.LastWrite
