import UserSettings.ImportOrder
import UserSettings.Refinement

/-!
# Importing the same object again

A server that does not know whether its object arrived sends it again. Each
member of the first import left its setting such that the same member finds
nothing to do, and no other member comes near it. So the second import returns
what the first one did and leaves no trace, neither in RAM nor in storage nor
at the callbacks. Only a write of no bytes is made again every time.
-/

namespace UserSettings.ImportAgain

open Bytes Values Settings Storage Store Effects Setters Reactions Records Cells Outcomes
open UserSettings.Frame Operations Transition Json Device Durability Visits Importing Validity
open ImportOrder Refinement

variable {env : Env} {setup : Setup} {stack other : Mem} {w u v next last : World}
  {s : UserSetting} {key : CString} {bytes : List UInt8} {member : CJson} {members : List CJson}
  {alwaysMarkChanged : Bool} {ret err : ℤ}

/-- No member writes no bytes into its setting. -/
def WritesBytes (env : Env) (w : World) (member : CJson) : Prop :=
  ∀ key s,member.string=some key → w.getByKey key=some s →
    importBytes env.charIsSigned s.type member≠.ok (some [])

/-- Only the registrations decide whether a member writes bytes. -/
theorem WritesBytes.of_registrations (h : WritesBytes env w member)
    (hregs : registrations next=registrations w) : WritesBytes env next member := by
  intro key t hstring ht
  obtain ⟨s,hs,hreg⟩ := getByKey_of_registrations hregs.symm ht
  have htype : s.type=t.type := congrArg Registration.type hreg
  rw [←htype]
  exact h key s hstring hs

/-- The flag of a setting that is marked is not set again. -/
theorem flag_again (hs : w.getByKey s.key=some s) (hflag : s.hasChangedRecently=true) :
    prvSetChangedRecentlyFlag env env.callbacks w s true=(w,0) := by
  rw [setChangedRecentlyFlag_eq hs,if_pos hflag.symm]

/-- Bytes that are the value of a setting change nothing when it is marked or
need not be. -/
theorem imported_in_place (hok : RecordOk s) (hs : w.getByKey s.key=some s) (h : bytes=s.value)
    (hflag : alwaysMarkChanged=true → s.hasChangedRecently=true) :
    imported env stack alwaysMarkChanged w s bytes=(w,0) := by
  rw [imported_same hok hs h]
  cases alwaysMarkChanged with
  | false => rfl
  | true =>
    rw [if_pos rfl,flag_again hs (hflag rfl)]

/-- What the import of each member keeps is kept by the import of all, also when
it stops half way. -/
theorem setAll_keeps {P : World → Prop}
    (hstep : ∀ m∈members,∀ u next err,P u →
      importMember env stack alwaysMarkChanged u m=.ok (next,err) → P next)
    (hw : P w) (h : setAllFromJson env stack alwaysMarkChanged w members=.ok (last,ret)) :
    P last := by
  induction members generalizing w with
  | nil =>
    cases h
    exact hw
  | cons member rest ih =>
    rw [setAllFromJson_member] at h
    obtain ⟨⟨middle,err⟩,hone,h⟩ := bind_eq_ok.mp h
    have hmiddle : P middle := hstep member List.mem_cons_self w middle err hw hone
    dsimp only at h
    split at h
    · cases h
      exact hmiddle
    · exact ih (fun m hm => hstep m (List.mem_cons_of_mem member hm)) hmiddle h

/-- The import of a member passes it over in every state, or it imports bytes. -/
theorem importMember_cases (hw : Running setup w) (hstring : member.string=some key)
    (h : importMember env stack alwaysMarkChanged w member=.ok (next,err)) :
    (next=w ∧ ∀ u other,Running setup u →
        importMember env other alwaysMarkChanged u member=.ok (u,err)) ∨
      ∃ s bytes,w.getByKey key=some s ∧
        importBytes env.charIsSigned s.type member=.ok (some bytes) ∧
        imported env stack alwaysMarkChanged w s bytes=(next,err) := by
  by_cases hkind : member.kind=.invalid
  · cases (importMember_invalid hkind).symm.trans h
    exact .inl ⟨rfl,fun _ _ _ => importMember_invalid hkind⟩
  · cases hs : w.getByKey key with
    | none =>
      cases (importMember_unknown hw.isLoaded hstring hs).symm.trans h
      refine .inl ⟨rfl,fun u _ hu => importMember_unknown hu.isLoaded hstring ?_⟩
      have hf := find_registrations u key
      rw [hu.regs,←hw.regs,←find_registrations,hs] at hf
      exact Option.map_eq_none_iff.mp hf
    | some s =>
      have hone := (importMember_registered hw.isLoaded hkind hstring hs).symm.trans h
      cases hconvert : importBytes env.charIsSigned s.type member with
      | error fault => cases (prvSetFromJson_fault hconvert).symm.trans hone
      | ok bytes? =>
        cases bytes? with
        | none =>
          cases (prvSetFromJson_unfit hconvert).symm.trans hone
          refine .inl ⟨rfl,fun u other hu => ?_⟩
          obtain ⟨t,ht,hreg⟩ := getByKey_of_registrations (hu.regs.trans hw.regs.symm) hs
          have htype : t.type=s.type := congrArg Registration.type hreg
          rw [importMember_registered hu.isLoaded hkind hstring ht,htype]
          exact prvSetFromJson_unfit hconvert
        | some bytes =>
          have hresult := (prvSetFromJson_bytes hw.isLoaded hs hconvert).symm.trans hone
          exact .inr ⟨s,bytes,rfl,hconvert,Except.ok.inj hresult⟩

section Saved

variable (hsave : ∀ n,env.saveResult n=0) (hq : Passive env.callbacks) (hpure : PureSetup setup)

include hsave hq hpure

variable (other) in
/-- What was imported into a setting finds nothing to do the second time, in any
state in which the setting is as the first time left it. -/
theorem imported_again (hw : Running setup w) (hu : Running setup u)
    (hs : w.getByKey s.key=some s) (hne : bytes≠[])
    (hsame : SameAt s.key (imported env stack alwaysMarkChanged w s bytes).1 u) :
    ∃ t,u.getByKey s.key=some t ∧ imported env other alwaysMarkChanged u t bytes=
      (u,(imported env stack alwaysMarkChanged w s bytes).2) := by
  have hok := hw.records.getByKey hs
  have hverdict := validates_stack hpure hw hs
  rcases bytes_cases hok stack bytes with hlong|hvalue|⟨hfits,hdiffers,hrefused⟩|hwrites
  · rw [imported_long hlong] at hsame ⊢
    exact ⟨s,hsame.record.trans hs,imported_long hlong⟩
  · rw [imported_same hok hs hvalue] at hsame ⊢
    cases alwaysMarkChanged with
    | false =>
      have hus := hsame.record.trans hs
      exact ⟨s,hus,imported_in_place hok hus hvalue fun h => by cases h⟩
    | true =>
      have hus : u.getByKey s.key=some ((storeFlag true).apply s) :=
        hsame.record.trans (flag_record hs true)
      exact ⟨_,hus,imported_in_place (hu.records.getByKey hus) hus hvalue fun _ => rfl⟩
  · rw [imported_refused hok hfits hdiffers hrefused] at hsame ⊢
    have hagain := (hverdict other bytes).trans ((hverdict stack bytes).symm.trans hrefused)
    exact ⟨s,hsame.record.trans hs,imported_refused hok hfits hdiffers hagain⟩
  · rw [imported_stored hsave hq hs hwrites] at hsame ⊢
    have hrecord := set_record env hq hs hwrites
    have hlen : bytes.length≠0 := fun h => hne (List.length_eq_zero_iff.mp h)
    unfold valueRecord at hrecord
    rw [hsave,decide_eq_true rfl,Bool.or_true,if_neg hlen,read_stack] at hrecord
    have hus := hsame.record.trans hrecord
    have hvalue : bytes=((storeFlag true).apply ((storeValue bytes).apply s)).value :=
      (Buffer.take_write hwrites.fits).symm
    exact ⟨_,hus,imported_in_place (hu.records.getByKey hus) hus hvalue fun _ => rfl⟩

variable (other) in
/-- A member finds nothing to do the second time. -/
theorem importMember_again (hw : Running setup w) (hu : Running setup u)
    (hstring : member.string=some key) (hbytes : WritesBytes env w member)
    (h : importMember env stack alwaysMarkChanged w member=.ok (next,err))
    (hsame : SameAt key next u) :
    importMember env other alwaysMarkChanged u member=.ok (u,err) := by
  cases importMember_cases hw hstring h with
  | inl hpassed => exact hpassed.2 u other hu
  | inr hbytesOf =>
    obtain ⟨s,bytes,hs,hconvert,hresult⟩ := hbytesOf
    have hkey := key_of_getByKey hs
    subst hkey
    have hne : bytes≠[] := by
      rintro rfl
      exact hbytes s.key s hstring hs hconvert
    have hleft : SameAt s.key (imported env stack alwaysMarkChanged w s bytes).1 u := by
      rw [hresult]
      exact hsame
    obtain ⟨t,ht,hagain⟩ := imported_again other hsave hq hpure hw hu hs hne hleft
    obtain ⟨_,hfound,hreg⟩ := getByKey_of_registrations (hu.regs.trans hw.regs.symm) hs
    cases hfound.symm.trans ht
    have htype : t.type=s.type := congrArg Registration.type hreg
    rw [importMember_registered hu.isLoaded (kind_of_bytes hconvert) hstring ht,htype,
      prvSetFromJson_bytes hu.isLoaded ht hconvert,hagain,hresult]

omit hsave hpure in
/-- The import of a member touches the setting of its name only. -/
theorem importMember_onlyAt (hw : Running setup w) (hstring : member.string=some key)
    (h : importMember env stack alwaysMarkChanged w member=.ok (next,err)) :
    OnlyAt key w next ∧ Running setup next := by
  cases importMember_cases hw hstring h with
  | inl hpassed =>
    rw [hpassed.1]
    exact ⟨OnlyAt.refl key w,hw⟩
  | inr hbytesOf =>
    obtain ⟨s,bytes,hs,_,hresult⟩ := hbytesOf
    have hkey := key_of_getByKey hs
    subst hkey
    have hnext : next=(imported env stack alwaysMarkChanged w s bytes).1 := by rw [hresult]
    rw [hnext]
    exact ⟨imported_onlyAt hq hs,hw.effects (imported_effects hs)⟩

omit hsave hpure in
/-- An import touches the settings of its names only. -/
theorem setAll_sameAt (hw : Running setup w) (hnamed : ∀ m∈members,∃ key,m.string=some key)
    (h : setAllFromJson env stack alwaysMarkChanged w members=.ok (next,ret))
    (hn : some key∉members.map CJson.string) : SameAt key w next ∧ Running setup next := by
  refine setAll_keeps (P:=fun u => SameAt key w u ∧ Running setup u) ?_ ⟨SameAt.refl key w,hw⟩ h
  rintro member hmember u next err ⟨hsame,hu⟩ hone
  obtain ⟨name,hstring⟩ := hnamed member hmember
  have hne : key≠name :=
    fun he => hn (List.mem_map.mpr ⟨member,hmember,hstring.trans (congrArg some he.symm)⟩)
  obtain ⟨honly,hrunning⟩ := importMember_onlyAt hq hu hstring hone
  exact ⟨hsame.trans (OnlyAt.sameAt honly hne),hrunning⟩

/-- An import changes nothing where its settings are as it left them before. -/
theorem setAll_again (hw : Running setup w) (hu : Running setup u)
    (hnamed : ∀ m∈members,∃ key,m.string=some key) (hnames : (members.map CJson.string).Nodup)
    (hbytes : ∀ m∈members,WritesBytes env w m)
    (h : setAllFromJson env stack alwaysMarkChanged w members=.ok (last,ret))
    (hsame : ∀ m∈members,∀ key,m.string=some key → SameAt key last u) :
    setAllFromJson env other alwaysMarkChanged u members=.ok (u,ret) := by
  induction members generalizing w with
  | nil =>
    cases h
    rfl
  | cons member rest ih =>
    rw [List.map_cons,List.nodup_cons] at hnames
    obtain ⟨key,hstring⟩ := hnamed member List.mem_cons_self
    have hmine := hsame member List.mem_cons_self key hstring
    rw [setAllFromJson_member] at h
    obtain ⟨⟨middle,err⟩,hone,h⟩ := bind_eq_ok.mp h
    obtain ⟨_,hrunning⟩ := importMember_onlyAt hq hw hstring hone
    have hrest : ∀ m∈rest,∃ key,m.string=some key :=
      fun m hm => hnamed m (List.mem_cons_of_mem member hm)
    dsimp only at h
    rw [setAllFromJson_member]
    split at h
    · -- the first import ended here, with this code
      rename_i hstop
      cases h
      have hagain := importMember_again other hsave hq hpure hw hu hstring
        (hbytes member List.mem_cons_self) hone hmine
      rw [hagain]
      exact if_pos hstop
    · rename_i hgo
      have hkept : SameAt key middle last :=
        (setAll_sameAt hq hrunning hrest h (hstring ▸ hnames.1)).1
      have hagain := importMember_again other hsave hq hpure hw hu hstring
        (hbytes member List.mem_cons_self) hone (hkept.trans hmine)
      have hregs := hrunning.regs.trans hw.regs.symm
      rw [hagain]
      dsimp only [bind,Except.bind]
      rw [if_neg hgo]
      exact ih hrunning hrest hnames.2
        (fun m hm => (hbytes m (List.mem_cons_of_mem member hm)).of_registrations hregs) h
        (fun m hm => hsame m (List.mem_cons_of_mem member hm))

end Saved

/-- For every running store, whatever storage and callbacks did before, and every
object with distinct names that writes no setting with no bytes: if storage does
not fail, callbacks only look and validate callbacks are pure, then an import of
the same object right after an import of it returns the same code, also that of
an import that stopped half way, and leaves everything as it is: RAM, storage,
the number of storage calls and the calls of callbacks. -/
theorem import_again (env : Env) (hsave : ∀ n,env.saveResult n=0)
    (hquiet : ∀ n,env.react n=[]) (setup : Setup) (hpure : PureSetup setup) (w v : World)
    (hw : Running setup w) (object : CJson)
    (hnamed : ∀ m∈object.children,∃ key,m.string=some key)
    (hnames : (object.children.map CJson.string).Nodup)
    (hbytes : ∀ m∈object.children,WritesBytes env w m) (stack other : Mem)
    (alwaysMarkChanged : Bool) (ret : ℤ)
    (h : userSettingsSetFromJson env stack w (some object) alwaysMarkChanged=.ok (v,ret)) :
    userSettingsSetFromJson env other v (some object) alwaysMarkChanged=.ok (v,ret) := by
  have hq := passive_callbacks hquiet
  have heffects : EffectSeq env anyValue w v := setAllFromJson_effects h
  exact setAll_again hsave hq hpure hw (hw.effects heffects) hnamed hnames hbytes h
    fun _ _ key _ => SameAt.refl key v

/-- A number and an unknown member are imported twice into a new device. -/
theorem import_again_on_device :
    let object : CJson := .createObject [five,unknown]
    ∃ start w,boot calm (device .u8 0 none none) ∅=.ok start ∧
      userSettingsSetFromJson calm (memOf []) start (some object) true=.ok (w,0) ∧
      userSettingsSetFromJson calm (memOf [7]) w (some object) true=.ok (w,0) := by
  intro object
  obtain ⟨start,w,hboot,hfirst⟩ : ∃ start w,boot calm (device .u8 0 none none) ∅=.ok start ∧
      userSettingsSetFromJson calm (memOf []) start (some object) true=.ok (w,0) :=
    ⟨_,_,rfl,rfl⟩
  have hreach : Reachable calm (device .u8 0 none none) ∅ start := ⟨start,[],hboot,rfl⟩
  have hrunning := running_of_reachable hreach
  have hnamed : ∀ m∈object.children,∃ key,m.string=some key := by
    intro m hm
    rcases List.mem_pair.mp hm with rfl|rfl <;> exact ⟨_,rfl⟩
  have hbytes : ∀ m∈object.children,WritesBytes calm start m := by
    intro m hm key s _ hs hnone
    have htype : s.type=.u8 := by
      have hmem : registration s∈registered (device .u8 0 none none) := by
        rw [←hrunning.regs]
        exact List.mem_map_of_mem (getByKey_some hs).1
      exact congrArg Registration.type (List.mem_singleton.mp hmem)
    rw [htype] at hnone
    rcases List.mem_pair.mp hm with rfl|rfl <;> cases hnone
  exact ⟨start,w,hboot,hfirst,import_again calm (fun _ => rfl) (fun _ => rfl) _
    (pure_device .u8 0) start w hrunning object hnamed (by decide) hbytes (memOf []) (memOf [7])
    true 0 hfirst⟩

end UserSettings.ImportAgain
