import UserSettings.ImportOrder

/-!
# Which imports are refused without effect

Nothing looks at the structure of what is imported: members are taken one
after another, and those with an array or an object as their value are passed
over like any other member of the wrong kind. A call that changes nothing and
returns an error has found nothing at all, or a text too long for its setting
behind members that had no effect.
-/

namespace UserSettings.WrongStructure

open Bytes Settings Storage Store Effects Setters Cells Outcomes Operations Transition Load
open Device Json
open UserSettings.Frame Durability RoundTrip Importing ImportOrder

/-- A flat object of scalar members. -/
structure Flat (settings : CJson) : Prop where
  /-- The top level is an object. -/
  kind : settings.kind=.object
  /-- No member is an object or an array. -/
  members : ∀ member∈settings.children,member.kind≠.object ∧ member.kind≠.array

/-- Structurally wrong: nothing at all, or anything but a flat object. -/
def Wrong (settings : Option CJson) : Prop := ∀ tree,settings=some tree → ¬Flat tree

/-- An import is refused without effect: it returns an error and leaves the state
as it was, with the count of storage calls and the trace. So settings_save_one
was not called, nor any callback, and nothing was written at any time. -/
def RefusedWhole (env : Env) (stack : Mem) (alwaysMarkChanged : Bool) (w : World)
    (settings : Option CJson) : Prop :=
  ∃ ret,userSettingsSetFromJson env stack w settings alwaysMarkChanged=.ok (w,ret) ∧ ret≠0

/-- A member that has no effect and does not end an import. -/
inductive PassedOver (env : Env) (stack : Mem) (alwaysMarkChanged : Bool) (w : World)
    (member : CJson) : Prop
  /-- The member has invalid kind. -/
  | invalid (hkind : member.kind=.invalid)
  /-- The member has no name, and there are no settings to compare it with. -/
  | nameless (hstring : member.string=none) (hnone : w.list.items=[])
  /-- The name is no registered key. -/
  | unknown (key : CString) (hstring : member.string=some key) (hs : w.getByKey key=none)
  /-- The kind is wrong for the setting. -/
  | unfit (s : UserSetting) (hstring : member.string=some s.key) (hs : w.getByKey s.key=some s)
    (hbytes : importBytes env.charIsSigned s.type member=.ok none)
  /-- The bytes fit, are not the present value and are refused. -/
  | refused (s : UserSetting) (bytes : List UInt8) (hstring : member.string=some s.key)
    (hs : w.getByKey s.key=some s)
    (hbytes : importBytes env.charIsSigned s.type member=.ok (some bytes))
    (hfits : bytes.length ≤ s.maxSize) (hne : bytes≠s.value)
    (hrefused : s.validates (stack.write 0 bytes) bytes.length=false)
  /-- The bytes are the present value, and the setting is not newly marked. -/
  | same (s : UserSetting) (bytes : List UInt8) (hstring : member.string=some s.key)
    (hs : w.getByKey s.key=some s)
    (hbytes : importBytes env.charIsSigned s.type member=.ok (some bytes))
    (hvalue : bytes=s.value) (hmark : alwaysMarkChanged=false ∨ s.hasChangedRecently=true)

/-- A member whose bytes are too long for its setting. -/
structure TooLong (env : Env) (w : World) (member : CJson) (s : UserSetting)
    (bytes : List UInt8) : Prop where
  /-- The member names the setting. -/
  string : member.string=some s.key
  /-- The setting is registered. -/
  registered : w.getByKey s.key=some s
  /-- The member has these bytes. -/
  converts : importBytes env.charIsSigned s.type member=.ok (some bytes)
  /-- They do not fit. -/
  long : s.maxSize<bytes.length

/-- The first member that is not passed over is too long. -/
def StopsTooLong (env : Env) (stack : Mem) (alwaysMarkChanged : Bool) (w : World)
    (members : List CJson) : Prop :=
  ∃ first member rest s bytes,members=first++member::rest ∧
    (∀ other∈first,PassedOver env stack alwaysMarkChanged w other) ∧ TooLong env w member s bytes

variable {env : Env} {setup : Setup} {stack : Mem} {w next : World} {s : UserSetting}
  {key : CString} {bytes : List UInt8} {member : CJson} {members : List CJson}
  {alwaysMarkChanged : Bool} {ret : ℤ}

/-- A member that is passed over changes nothing. -/
theorem importMember_passedOver (hw : Running setup w)
    (h : PassedOver env stack alwaysMarkChanged w member) :
    ∃ err,importMember env stack alwaysMarkChanged w member=.ok (w,err) ∧
      (err=0 ∨ err= -eInval) := by
  cases h with
  | invalid hkind => exact ⟨0,importMember_invalid hkind,.inl rfl⟩
  | nameless hstring hnone =>
    have hexists : existsWithString w member.string=.ok none := by
      unfold existsWithString
      rw [if_pos hw.isLoaded,hstring]
      dsimp only
      rw [hnone]
      rfl
    refine ⟨0,?_,.inl rfl⟩
    unfold importMember
    split
    · rfl
    · rw [hexists]
      rfl
  | unknown key hstring hs => exact ⟨0,importMember_unknown hw.isLoaded hstring hs,.inl rfl⟩
  | unfit s hstring hs hbytes =>
    by_cases hkind : member.kind=.invalid
    · exact ⟨0,importMember_invalid hkind,.inl rfl⟩
    · rw [importMember_registered hw.isLoaded hkind hstring hs]
      exact ⟨_,prvSetFromJson_unfit hbytes,.inr rfl⟩
  | refused s bytes hstring hs hbytes hfits hne hrefused =>
    rw [importMember_bytes hw.isLoaded hstring hs hbytes,
      imported_refused (hw.records.getByKey hs) hfits hne hrefused]
    exact ⟨_,rfl,.inr rfl⟩
  | same s bytes hstring hs hbytes hvalue hmark =>
    rw [importMember_bytes hw.isLoaded hstring hs hbytes,
      imported_same (hw.records.getByKey hs) hs hvalue]
    refine ⟨0,?_,.inl rfl⟩
    split
    · rename_i hon
      have hflag := hmark.resolve_left fun hoff => by
        rw [hoff] at hon
        cases hon
      rw [setChangedRecentlyFlag_eq hs,if_pos hflag.symm]
    · rfl

/-- A member that is too long ends an import without an effect. -/
theorem importMember_tooLong (hl : w.isLoaded=true) (h : TooLong env w member s bytes) :
    importMember env stack alwaysMarkChanged w member=.ok (w,-eNoMem) := by
  rw [importMember_bytes hl h.string h.registered h.converts,imported_long h.long]

/-- What is imported into a setting is passed over, too long or stored. -/
theorem imported_cases (hw : Running setup w) (hstring : member.string=some s.key)
    (hs : w.getByKey s.key=some s)
    (hbytes : importBytes env.charIsSigned s.type member=.ok (some bytes)) :
    PassedOver env stack alwaysMarkChanged w member ∨ TooLong env w member s bytes ∨
      w.saves<(imported env stack alwaysMarkChanged w s bytes).1.saves := by
  have hok := hw.records.getByKey hs
  rcases bytes_cases hok stack bytes with hlong|hvalue|⟨hfits,hne,hrefused⟩|hwrites
  · exact .inr (.inl ⟨hstring,hs,hbytes,hlong⟩)
  · by_cases hmark : alwaysMarkChanged=false ∨ s.hasChangedRecently=true
    · exact .inl (.same s bytes hstring hs hbytes hvalue hmark)
    · rw [not_or,Bool.not_eq_false] at hmark
      refine .inr (.inr ?_)
      rw [imported_same hok hs hvalue,if_pos hmark.1,setChangedRecentlyFlag_eq hs,
        if_neg fun hflag => hmark.2 hflag.symm]
      dsimp only
      rw [saveOne_saves]
      exact Nat.lt_succ_self w.saves
  · exact .inl (.refused s bytes hstring hs hbytes hfits hne hrefused)
  · exact .inr (.inr (imported_saves_lt hs hwrites))

/-- A member is passed over, too long or stores something, if its import ends. -/
theorem importMember_cases (hw : Running setup w)
    (h : importMember env stack alwaysMarkChanged w member=.ok (next,ret)) :
    PassedOver env stack alwaysMarkChanged w member ∨ (∃ s bytes,TooLong env w member s bytes) ∨
      w.saves<next.saves := by
  by_cases hkind : member.kind=.invalid
  · exact .inl (.invalid hkind)
  · cases hstring : member.string with
    | none =>
      by_cases hnone : w.list.items=[]
      · exact .inl (.nameless hstring hnone)
      · have hexists : existsWithString w member.string=.error .nullPointer := by
          unfold existsWithString
          rw [if_pos hw.isLoaded,hstring]
          exact if_neg fun he => hnone (List.isEmpty_iff.mp he)
        unfold importMember at h
        rw [if_neg hkind,hexists] at h
        cases h
    | some key =>
      cases hs : w.getByKey key with
      | none => exact .inl (.unknown key hstring hs)
      | some s =>
        have hkey := key_of_getByKey hs
        subst hkey
        rw [importMember_registered hw.isLoaded hkind hstring hs] at h
        cases hbytes : importBytes env.charIsSigned s.type member with
        | error fault =>
          rw [prvSetFromJson_fault hbytes] at h
          cases h
        | ok bytes? =>
          cases bytes? with
          | none => exact .inl (.unfit s hstring hs hbytes)
          | some bytes =>
            rw [prvSetFromJson_bytes hw.isLoaded hs hbytes] at h
            have hnext : (imported env stack alwaysMarkChanged w s bytes).1=next :=
              congrArg Prod.fst (Except.ok.inj h)
            rcases imported_cases hw hstring hs hbytes with hover|hlong|hsaves
            · exact .inl hover
            · exact .inr (.inl ⟨s,bytes,hlong⟩)
            · exact .inr (.inr (hnext ▸ hsaves))

/-- Members that are imported without an effect and end with an error stop at
one that is too long. -/
theorem stops_of_refused (hw : Running setup w)
    (h : setAllFromJson env stack alwaysMarkChanged w members=.ok (w,ret)) (hret : ret≠0) :
    StopsTooLong env stack alwaysMarkChanged w members := by
  induction members with
  | nil => exact absurd (congrArg Prod.snd (Except.ok.inj h)).symm hret
  | cons member rest ih =>
    rw [setAllFromJson_member] at h
    obtain ⟨⟨next,err⟩,hone,h⟩ := bind_eq_ok.mp h
    dsimp only at h
    rcases importMember_cases hw hone with hover|⟨s,bytes,hlong⟩|hsaves
    · obtain ⟨code,hkept,hcode⟩ : ∃ code,importMember env stack alwaysMarkChanged w member=
          .ok (w,code) ∧ _ := importMember_passedOver hw hover
      cases hkept.symm.trans hone
      rw [if_neg (by omega)] at h
      obtain ⟨first,last,others,s,bytes,hsplit,hfirst,hlong⟩ := ih h
      refine ⟨member::first,last,others,s,bytes,?_,?_,hlong⟩
      · rw [hsplit]
        rfl
      · intro other hother
        rcases List.mem_cons.mp hother with rfl|hother
        · exact hover
        · exact hfirst other hother
    · exact ⟨[],member,rest,s,bytes,rfl,fun _ hm => absurd hm List.not_mem_nil,hlong⟩
    -- what was stored is never taken back
    · split at h
      · cases h
        omega
      · have hle := effects_saves_le (setAllFromJson_effects h)
        omega

/-- Members that stop at one that is too long are refused without an effect. -/
theorem refused_of_stops (hw : Running setup w)
    (h : StopsTooLong env stack alwaysMarkChanged w members) :
    setAllFromJson env stack alwaysMarkChanged w members=.ok (w,-eNoMem) := by
  obtain ⟨first,member,rest,s,bytes,rfl,hfirst,hlong⟩ := h
  induction first with
  | nil =>
    rw [List.nil_append,setAllFromJson_member,importMember_tooLong hw.isLoaded hlong]
    rfl
  | cons head tail ih =>
    obtain ⟨code,hkept,hcode⟩ : ∃ code,importMember env stack alwaysMarkChanged w head=
        .ok (w,code) ∧ _ := importMember_passedOver hw (hfirst head List.mem_cons_self)
    rw [List.cons_append,setAllFromJson_member,hkept]
    dsimp only [bind,Except.bind]
    rw [if_neg (by omega)]
    exact ih fun other hother => hfirst other (List.mem_cons_of_mem head hother)

/-- For every running store, whatever callbacks do and storage answers, and
whatever is imported, flat object or not: the import is refused without effect
if and only if there is nothing to import or the first member that is not
passed over is too long for its setting. -/
theorem refused_whole_iff (hw : Running setup w) (settings : Option CJson) (stack : Mem)
    (alwaysMarkChanged : Bool) : RefusedWhole env stack alwaysMarkChanged w settings ↔
      ∀ tree,settings=some tree → StopsTooLong env stack alwaysMarkChanged w tree.children := by
  cases settings with
  | none => exact ⟨fun _ => nofun,fun _ => ⟨-eInval,rfl,by decide⟩⟩
  | some tree =>
    constructor
    · rintro ⟨ret,hrun,hret⟩ other hother
      cases hother
      exact stops_of_refused hw hrun hret
    · intro h
      exact ⟨-eNoMem,refused_of_stops hw (h tree rfl),by decide⟩

/-- An import of nothing on a device is refused. -/
theorem refused_on_device : ∃ w,Running (device .bytes 1 none none) w ∧
    ∀ settings,RefusedWhole calm (memOf []) true w settings ↔
      ∀ tree,settings=some tree → StopsTooLong calm (memOf []) true w tree.children := by
  have hreach : Reachable calm (device .bytes 1 none none) ∅ _ := ⟨_,[],rfl,rfl⟩
  exact ⟨_,running_of_reachable hreach,fun settings =>
    refused_whole_iff (running_of_reachable hreach) settings _ _⟩

/-- A member with an object as its value. -/
def nested : CJson := .mk .object (some ⟨CString.ascii ['f'],by decide⟩) 0 0 none []

/-- The member before a nested object is imported with success. -/
theorem nested_applied : ¬∀ (env : Env) (setup : Setup) (w : World) (settings : Option CJson)
    (stack : Mem) (alwaysMarkChanged : Bool),Running setup w → Wrong settings →
    RefusedWhole env stack alwaysMarkChanged w settings := by
  intro h
  obtain ⟨w,next,hboot,hnext⟩ : ∃ w next,boot calm (device .u8 0 none none) ∅=.ok w ∧
      userSettingsSetFromJson calm (memOf []) w (some (.createObject [five,nested])) false=
        .ok (next,0) := ⟨_,_,rfl,rfl⟩
  have hwrong : Wrong (some (.createObject [five,nested])) := by
    intro tree htree hflat
    cases htree
    exact (hflat.members nested (List.mem_cons_of_mem _ List.mem_cons_self)).1 rfl
  obtain ⟨ret,hrun,hret⟩ := h calm _ w _ (memOf []) false
    (running_of_booted (reboot_ok hboot)) hwrong
  exact hret (congrArg Prod.snd (Except.ok.inj (hrun.symm.trans hnext)))

end UserSettings.WrongStructure
