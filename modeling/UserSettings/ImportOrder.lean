import UserSettings.RoundTrip
import UserSettings.Validity

/-!
# The good members decide an import

A member is good when its key is registered, its kind fits and its bytes are
accepted. The import of a member touches one setting only and depends on this
setting only, and a member that is not good touches nothing, so two objects
with the same good members have the same outcome. One member that is not good
has an effect: refused bytes that are the present value already are marked.
-/

namespace UserSettings.ImportOrder

open Bytes Values Settings Storage Store Effects Setters Reactions Load Records Cells Outcomes
open Operations Transition Json Device Durability Visits RoundTrip Importing Validity

/-- A member is good: its key is registered, its kind fits the type of the
setting, and the validate callback accepts the converted bytes. -/
def Good (env : Env) (w : World) (member : CJson) : Prop :=
  ∃ key s bytes,member.string=some key ∧ w.getByKey key=some s ∧
    importBytes env.charIsSigned s.type member=.ok (some bytes) ∧
    accepts (registration s) bytes=true

/-- A member as a parser makes it: it has a name, and a string has a text. The
text for a bytes setting has at most 2048 characters. -/
structure Parsed (w : World) (member : CJson) : Prop where
  /-- The name. -/
  string : ∃ key,member.string=some key
  /-- The text. -/
  valuestring : member.kind=.string → ∃ text,member.valuestring=some text ∧
    ∀ key s,member.string=some key → w.getByKey key=some s → s.type=.bytes → text.strlen ≤ 2048

/-- The bytes of a member are refused by the validate callback of its setting. -/
structure Refused (env : Env) (w : World) (member : CJson) (s : UserSetting)
    (bytes : List UInt8) : Prop where
  /-- The member names the setting. -/
  string : member.string=some s.key
  /-- The setting is registered. -/
  registered : w.getByKey s.key=some s
  /-- The member has these bytes. -/
  converts : importBytes env.charIsSigned s.type member=.ok (some bytes)
  /-- The validate callback refuses them. -/
  refused : accepts (registration s) bytes=false

/-- The members of an object have pairwise distinct names, and bytes that are
refused fit. -/
structure Members (env : Env) (w : World) (members : List CJson) : Prop where
  /-- The names. -/
  names : (members.map CJson.string).Nodup
  /-- Each member is parsed. -/
  parsed : ∀ member∈members,Parsed w member
  /-- Refused bytes. -/
  fits : ∀ member∈members,∀ s bytes,Refused env w member s bytes → bytes.length ≤ s.maxSize

/-- Bytes that are refused are not the present value. -/
def NoneInPlace (env : Env) (w : World) (members : List CJson) : Prop :=
  ∀ member∈members,∀ s bytes,Refused env w member s bytes → bytes≠s.value

/-- The same records, with their flags, and the same persistent entries. -/
structure SameStore (left right : World) : Prop where
  /-- The records. -/
  record : ∀ key,left.getByKey key=right.getByKey key
  /-- The entries. -/
  entry : ∀ name,left.nvs.lookup name=right.nvs.lookup name

variable {env : Env} {setup : Setup} {stack other : Mem} {w u next : World} {s : UserSetting}
  {key : CString} {bytes : List UInt8} {member : CJson} {members : List CJson}
  {alwaysMarkChanged : Bool} {ret : ℤ}

/-- The bytes of a parsed member for a registered setting can be converted. -/
theorem importBytes_parsed (hparsed : Parsed w member) (hstring : member.string=some key)
    (hs : w.getByKey key=some s) :
    ∃ bytes?,importBytes env.charIsSigned s.type member=.ok bytes? := by
  unfold importBytes
  cases htype : s.type with
  | bool | u8 | u16 | u32 | u64 | i8 | i16 | i32 | i64 =>
    dsimp only
    split
    · exact ⟨_,rfl⟩
    · exact ⟨_,rfl⟩
  | str =>
    dsimp only
    split
    · rename_i hkind
      obtain ⟨text,htext,_⟩ := hparsed.valuestring hkind
      unfold valueText
      rw [htext]
      exact ⟨_,rfl⟩
    · exact ⟨_,rfl⟩
  | bytes =>
    dsimp only
    split
    · rename_i hkind
      obtain ⟨text,htext,hlength⟩ := hparsed.valuestring hkind
      have hshort := hlength key s hstring hs htype
      have hroom : ¬bytesSize<text.strlen/2 := by
        change ¬1024<text.strlen/2
        omega
      unfold valueText
      rw [htext]
      dsimp only
      rw [if_neg hroom]
      exact ⟨_,rfl⟩
    · exact ⟨_,rfl⟩

/-- A listed setting of a pure setup has a pure validate callback. -/
theorem pure_of_running (hpure : PureSetup setup) (hw : Running setup w)
    (hs : w.getByKey key=some s) : PureRegistration (registration s) := by
  have hmem : registration s∈registered setup := by
    rw [←hw.regs]
    exact List.mem_map_of_mem (getByKey_some hs).1
  obtain ⟨r,hr,he⟩ := List.mem_map.mp hmem
  rw [←he]
  exact hpure r hr

/-- The verdict on what an import puts on the stack is that on its bytes. -/
theorem validates_stack (hpure : PureSetup setup) (hw : Running setup w)
    (hs : w.getByKey key=some s) (stack : Mem) (bytes : List UInt8) :
    s.validates (stack.write 0 bytes) bytes.length=accepts (registration s) bytes := by
  rw [validates_eq_accepts (pure_of_running hpure hw hs),read_stack]

section Saved

variable (hsave : ∀ n,env.saveResult n=0) (hq : Passive env.callbacks)

include hsave hq

variable (stack other) in
/-- What an import makes of a setting depends on this setting and the bytes only. -/
theorem imported_congr (hpure : PureSetup setup) (hw : Running setup w)
    (hsame : SameAt s.key w u) (hs : w.getByKey s.key=some s) :
    (imported env stack alwaysMarkChanged w s bytes).2=
        (imported env other alwaysMarkChanged u s bytes).2 ∧
      SameAt s.key (imported env stack alwaysMarkChanged w s bytes).1
        (imported env other alwaysMarkChanged u s bytes).1 := by
  have hok := hw.records.getByKey hs
  have hsu : u.getByKey s.key=some s := hsame.record.trans hs
  have hverdict := validates_stack hpure hw hs
  rcases bytes_cases hok stack bytes with hlong|hvalue|⟨hfits,hne,hrefused⟩|hwrites
  · rw [imported_long hlong,imported_long hlong]
    exact ⟨rfl,hsame⟩
  · rw [imported_same hok hs hvalue,imported_same hok hsu hvalue]
    refine ⟨rfl,?_⟩
    dsimp only
    split
    · refine ⟨?_,fun subtree => ?_⟩
      · rw [flag_record hs,flag_record hsu]
      · rw [flag_lookup hsave hs,flag_lookup hsave hsu,hsame.entry]
    · exact hsame
  · have hother := (hverdict other bytes).trans ((hverdict stack bytes).symm.trans hrefused)
    rw [imported_refused hok hfits hne hrefused,imported_refused hok hfits hne hother]
    exact ⟨rfl,hsame⟩
  · have hne : bytes≠s.value := fun hvalue => hwrites.differs ((sameValue_stack hok).mpr hvalue)
    have hother := writes_stack hok hwrites.fits hne
      ((hverdict other bytes).trans ((hverdict stack bytes).symm.trans hwrites.valid))
    rw [imported_stored hsave hq hs hwrites,imported_stored hsave hq hsu hother]
    refine ⟨rfl,?_,fun subtree => ?_⟩
    · dsimp only
      rw [set_record env hq hs hwrites,set_record env hq hsu hother]
      unfold valueRecord
      simp only [hsave,read_stack]
    · dsimp only
      rw [set_lookup hsave hq hs hwrites,set_lookup hsave hq hsu hother,hsame.entry]
      unfold entryOf
      simp only [read_stack]

/-- The import of a member touches the setting of its name only and depends on
this setting only. -/
theorem importMember_congr (hpure : PureSetup setup) (hw : Running setup w) (hu : Running setup u)
    (hparsed : Parsed w member) (hstring : member.string=some key) (hsame : SameAt key w u) :
    ∃ next last err,importMember env stack alwaysMarkChanged w member=.ok (next,err) ∧
      importMember env other alwaysMarkChanged u member=.ok (last,err) ∧ SameAt key next last ∧
      OnlyAt key u last ∧ Running setup last := by
  by_cases hkind : member.kind=.invalid
  · exact ⟨w,u,0,importMember_invalid hkind,importMember_invalid hkind,hsame,OnlyAt.refl key u,hu⟩
  · cases hs : w.getByKey key with
    | none =>
      have hsu : u.getByKey key=none := hsame.record.trans hs
      exact ⟨w,u,0,importMember_unknown hw.isLoaded hstring hs,
        importMember_unknown hu.isLoaded hstring hsu,hsame,OnlyAt.refl key u,hu⟩
    | some s =>
      have hkey := key_of_getByKey hs
      subst hkey
      have hsu : u.getByKey s.key=some s := hsame.record.trans hs
      obtain ⟨bytes?,hbytes⟩ := importBytes_parsed hparsed hstring hs
      rw [importMember_registered hw.isLoaded hkind hstring hs,
        importMember_registered hu.isLoaded hkind hstring hsu]
      cases bytes? with
      | none =>
        exact ⟨w,u,_,prvSetFromJson_unfit hbytes,prvSetFromJson_unfit hbytes,hsame,
          OnlyAt.refl s.key u,hu⟩
      | some bytes =>
        rw [prvSetFromJson_bytes hw.isLoaded hs hbytes,prvSetFromJson_bytes hu.isLoaded hsu hbytes]
        have hcongr : _=(imported env other alwaysMarkChanged u s bytes).2 ∧ _ :=
          imported_congr stack other hsave hq hpure hw hsame hs
        refine ⟨_,_,(imported env stack alwaysMarkChanged w s bytes).2,rfl,?_,hcongr.2,
          imported_onlyAt hq hsu,hu.effects (imported_effects hsu)⟩
        rw [hcongr.1]

end Saved

/-- A member that is not good touches nothing. -/
theorem importMember_inert (hpure : PureSetup setup) (hw : Running setup w)
    (hparsed : Parsed w member) (hfits : ∀ s bytes,Refused env w member s bytes →
      bytes.length ≤ s.maxSize)
    (hplace : alwaysMarkChanged=true → ∀ s bytes,Refused env w member s bytes → bytes≠s.value)
    (hbad : ¬Good env w member) :
    ∃ err,importMember env stack alwaysMarkChanged w member=.ok (w,err) ∧
      (err=0 ∨ err= -eInval) := by
  obtain ⟨key,hstring⟩ := hparsed.string
  by_cases hkind : member.kind=.invalid
  · exact ⟨0,importMember_invalid hkind,.inl rfl⟩
  · cases hs : w.getByKey key with
    | none => exact ⟨0,importMember_unknown hw.isLoaded hstring hs,.inl rfl⟩
    | some s =>
      have hkey := key_of_getByKey hs
      subst hkey
      have hok := hw.records.getByKey hs
      obtain ⟨bytes?,hbytes⟩ := importBytes_parsed hparsed hstring hs
      rw [importMember_registered hw.isLoaded hkind hstring hs]
      cases bytes? with
      | none => exact ⟨_,prvSetFromJson_unfit hbytes,.inr rfl⟩
      | some bytes =>
        have haccepts : accepts (registration s) bytes=false := by
          by_contra haccepted
          exact hbad ⟨s.key,s,bytes,hstring,hs,hbytes,by simpa using haccepted⟩
        have hrefused : Refused env w member s bytes := ⟨hstring,hs,hbytes,haccepts⟩
        rw [prvSetFromJson_bytes hw.isLoaded hs hbytes]
        by_cases hvalue : bytes=s.value
        · have hmark : alwaysMarkChanged=false := by
            by_contra hmark
            exact hplace (by simpa using hmark) s bytes hrefused hvalue
          rw [imported_same hok hs hvalue,hmark]
          exact ⟨0,rfl,.inl rfl⟩
        · rw [imported_refused hok (hfits s bytes hrefused) hvalue
            ((validates_stack hpure hw hs stack bytes).trans haccepts)]
          exact ⟨_,rfl,.inr rfl⟩

/-- An import goes on behind a member. -/
def Continues (env : Env) (stack : Mem) (alwaysMarkChanged : Bool) (w : World)
    (member : CJson) : Prop :=
  ∀ next err,importMember env stack alwaysMarkChanged w member=.ok (next,err) →
    err=0 ∨ err= -eInval

/-- The settings that some members name are untouched. -/
def Unvisited (w u : World) (members : List CJson) : Prop :=
  ∀ member∈members,∀ key,member.string=some key → SameAt key w u

/-- What the import of some members leaves: each setting that is named as its
own member leaves it, and everything else untouched. -/
structure Outcome (env : Env) (stack : Mem) (alwaysMarkChanged : Bool) (w u : World)
    (members : List CJson) (last : World) : Prop where
  /-- The named settings. -/
  named : ∀ member∈members,∀ key,member.string=some key → ∃ next err,
    importMember env stack alwaysMarkChanged w member=.ok (next,err) ∧ SameAt key next last
  /-- The other settings. -/
  others : ∀ key,some key∉members.map CJson.string → SameAt key u last
  /-- Entries that belong to no setting. -/
  entry : ∀ name,(∀ subtree key,name≠keyWithPrefix subtree key) →
    last.nvs.lookup name=u.nvs.lookup name

/-- The import of the first member leaves those of the others unvisited. -/
theorem unvisited_rest {rest : List CJson} (honly : OnlyAt key u next)
    (hn : some key∉rest.map CJson.string) (h : Unvisited w u rest) : Unvisited w next rest := by
  intro member hmember name hname
  have hne : name≠key := by
    intro he
    rw [he] at hname
    exact hn (hname ▸ List.mem_map_of_mem hmember)
  exact (h member hmember name hname).trans (OnlyAt.sameAt honly hne)

section Runs

variable (hsave : ∀ n,env.saveResult n=0) (hq : Passive env.callbacks) (hpure : PureSetup setup)
  (hw : Running setup w)

include hsave hq hpure hw

/-- Behind members that let it go on an import succeeds. -/
theorem run_outcome (hu : Running setup u) (hnames : (members.map CJson.string).Nodup)
    (hparsed : ∀ member∈members,Parsed w member) (hunvisited : Unvisited w u members)
    (hgo : ∀ member∈members,Continues env stack alwaysMarkChanged w member) :
    ∃ last,setAllFromJson env other alwaysMarkChanged u members=.ok (last,0) ∧
      Outcome env stack alwaysMarkChanged w u members last := by
  induction members generalizing u with
  | nil =>
    exact ⟨u,rfl,fun _ h => absurd h List.not_mem_nil,fun key _ => SameAt.refl key u,fun _ _ => rfl⟩
  | cons member rest ih =>
    rw [List.map_cons,List.nodup_cons] at hnames
    obtain ⟨key,hstring⟩ := (hparsed member List.mem_cons_self).string
    rw [hstring] at hnames
    obtain ⟨next,middle,err,hone,hthis,hsame,honly,hrunning⟩ :=
      importMember_congr hsave hq hpure hw hu (hparsed member List.mem_cons_self) hstring
        (hunvisited member List.mem_cons_self key hstring)
    have herr := hgo member List.mem_cons_self next err hone
    have hrest := unvisited_rest honly hnames.1 fun m hm =>
      hunvisited m (List.mem_cons_of_mem member hm)
    obtain ⟨last,hrun,hlast⟩ := ih hrunning hnames.2
      (fun m hm => hparsed m (List.mem_cons_of_mem member hm)) hrest
      (fun m hm => hgo m (List.mem_cons_of_mem member hm))
    have hstep : setAllFromJson env other alwaysMarkChanged u (member::rest)=.ok (last,0) := by
      rw [setAllFromJson_member,hthis]
      dsimp only [bind,Except.bind]
      rw [if_neg (by omega)]
      exact hrun
    refine ⟨last,hstep,?_,?_,?_⟩
    · intro m hm name hname
      rcases List.mem_cons.mp hm with rfl|hm
      · cases hstring.symm.trans hname
        exact ⟨next,err,hone,hsame.trans (hlast.others key hnames.1)⟩
      · exact hlast.named m hm name hname
    · intro name hname
      rw [List.map_cons,List.mem_cons,not_or,hstring] at hname
      have hne : name≠key := fun he => hname.1 (congrArg some he)
      exact (OnlyAt.sameAt honly hne).trans (hlast.others name hname.2)
    · intro name hname
      exact (hlast.entry name hname).trans (honly.entry name fun subtree => hname subtree key)

/-- An import that succeeds goes on behind each member. -/
theorem run_continues (hu : Running setup u) (hnames : (members.map CJson.string).Nodup)
    (hparsed : ∀ member∈members,Parsed w member) (hunvisited : Unvisited w u members)
    (hrun : setAllFromJson env stack alwaysMarkChanged u members=.ok (next,0)) :
    ∀ member∈members,Continues env stack alwaysMarkChanged w member := by
  induction members generalizing u with
  | nil => exact fun _ h => absurd h List.not_mem_nil
  | cons member rest ih =>
    rw [List.map_cons,List.nodup_cons] at hnames
    obtain ⟨key,hstring⟩ := (hparsed member List.mem_cons_self).string
    rw [hstring] at hnames
    obtain ⟨left,middle,err,hone,hthis,_,honly,hrunning⟩ :
        ∃ left middle err,importMember env stack alwaysMarkChanged w member=.ok (left,err) ∧ _ :=
      importMember_congr hsave hq hpure hw hu (hparsed member List.mem_cons_self)
        hstring (hunvisited member List.mem_cons_self key hstring)
    have hrest := unvisited_rest honly hnames.1 fun m hm =>
      hunvisited m (List.mem_cons_of_mem member hm)
    rw [setAllFromJson_member,hthis] at hrun
    dsimp only [bind,Except.bind] at hrun
    by_cases herr : err=0 ∨ err= -eInval
    · rw [if_neg (by omega)] at hrun
      intro m hm
      rcases List.mem_cons.mp hm with rfl|hm
      · intro other code hother
        cases hone.symm.trans hother
        exact herr
      · exact ih hrunning hnames.2 (fun x hx => hparsed x (List.mem_cons_of_mem member hx)) hrest
          hrun m hm
    · rw [if_pos (by omega)] at hrun
      have hzero := congrArg Prod.snd (Except.ok.inj hrun)
      exact absurd (.inl hzero) herr

end Runs

/-- A setting that no good member names is untouched. -/
theorem outcome_untouched {last : World} (hpure : PureSetup setup) (hw : Running setup w)
    (hmembers : Members env w members) (hplace : alwaysMarkChanged=true → NoneInPlace env w members)
    (h : Outcome env stack alwaysMarkChanged w w members last)
    (hnone : ∀ member∈members,Good env w member → member.string≠some key) : SameAt key w last := by
  by_cases hname : some key∈members.map CJson.string
  · obtain ⟨member,hmember,hstring⟩ := List.mem_map.mp hname
    have hbad : ¬Good env w member := fun hgood => hnone member hmember hgood hstring
    obtain ⟨err,hinert,_⟩ :
        ∃ err,importMember env stack alwaysMarkChanged w member=.ok (w,err) ∧ _ :=
      importMember_inert hpure hw (hmembers.parsed member hmember) (hmembers.fits member hmember)
        (fun hmark => hplace hmark member hmember) hbad
    obtain ⟨next,code,hone,hsame⟩ := h.named member hmember key hstring
    cases hinert.symm.trans hone
    exact hsame
  · exact h.others key hname

/-- For every running store with pure validate callbacks, storage that does not
fail and callbacks that modify nothing, and any two objects with the same good
members, in any order and among any other members whose refused bytes fit and,
if all settings are to be marked, are not the present value: if importing the
one returns zero, then importing the other does, and both end with the same
records, flags and entries. -/
theorem import_depends_on_good (hsave : ∀ n,env.saveResult n=0) (hreact : ∀ n,env.react n=[])
    (hpure : PureSetup setup) (hw : Running setup w) {first second : List CJson}
    (hfirst : Members env w first) (hsecond : Members env w second)
    (hgood : ∀ member,Good env w member → (member∈first ↔ member∈second))
    (hplace : alwaysMarkChanged=true → NoneInPlace env w first ∧ NoneInPlace env w second)
    (hrun : userSettingsSetFromJson env stack w (some (.createObject first)) alwaysMarkChanged=
      .ok (next,0)) (other : Mem) :
    ∃ last,userSettingsSetFromJson env other w (some (.createObject second)) alwaysMarkChanged=
      .ok (last,0) ∧ SameStore next last := by
  have hq := passive_callbacks hreact
  have hstart : ∀ members,Unvisited w w members := fun _ _ _ key _ => SameAt.refl key w
  have hgo := run_continues hsave hq hpure hw hw hfirst.names hfirst.parsed (hstart first) hrun
  -- a member of the second object is in the first or touches nothing
  have hgoSecond : ∀ member∈second,Continues env stack alwaysMarkChanged w member := by
    intro member hmember
    by_cases hg : Good env w member
    · exact hgo member ((hgood member hg).mpr hmember)
    · obtain ⟨err,hinert,herr⟩ :
          ∃ err,importMember env stack alwaysMarkChanged w member=.ok (w,err) ∧ _ :=
        importMember_inert hpure hw (hsecond.parsed member hmember) (hsecond.fits member hmember)
          (fun hmark => (hplace hmark).2 member hmember) hg
      intro left code hone
      cases hinert.symm.trans hone
      exact herr
  obtain ⟨done,hdone,houtcome⟩ : ∃ done,setAllFromJson env stack alwaysMarkChanged w first=
      .ok (done,0) ∧ _ :=
    run_outcome hsave hq hpure hw hw hfirst.names hfirst.parsed (hstart first) hgo
  obtain ⟨last,hlast,hother⟩ : ∃ last,setAllFromJson env other alwaysMarkChanged w second=
      .ok (last,0) ∧ _ :=
    run_outcome hsave hq hpure hw hw hsecond.names hsecond.parsed (hstart second) hgoSecond
  cases hrun.symm.trans hdone
  have hkey : ∀ key,next.getByKey key=last.getByKey key ∧
      ∀ subtree,next.nvs.lookup (keyWithPrefix subtree key)=
        last.nvs.lookup (keyWithPrefix subtree key) := by
    intro key
    by_cases hnamed : ∃ member∈first,Good env w member ∧ member.string=some key
    · obtain ⟨member,hmember,hg,hstring⟩ := hnamed
      obtain ⟨left,err,hone,hsame⟩ := houtcome.named member hmember key hstring
      obtain ⟨right,code,htwo,hsame'⟩ :=
        hother.named member ((hgood member hg).mp hmember) key hstring
      cases hone.symm.trans htwo
      exact ⟨hsame.record.trans hsame'.record.symm,
        fun subtree => (hsame.entry subtree).trans (hsame'.entry subtree).symm⟩
    · have hsame := outcome_untouched hpure hw hfirst (fun hmark => (hplace hmark).1) houtcome
        fun member hmember hg hstring => hnamed ⟨member,hmember,hg,hstring⟩
      have hsame' := outcome_untouched hpure hw hsecond (fun hmark => (hplace hmark).2) hother
        fun member hmember hg hstring =>
          hnamed ⟨member,(hgood member hg).mpr hmember,hg,hstring⟩
      exact ⟨hsame.record.trans hsame'.record.symm,
        fun subtree => (hsame.entry subtree).trans (hsame'.entry subtree).symm⟩
  refine ⟨last,hlast,fun key => (hkey key).1,fun name => ?_⟩
  by_cases hname : ∃ subtree key,name=keyWithPrefix subtree key
  · obtain ⟨subtree,key,rfl⟩ := hname
    exact (hkey key).2 subtree
  · have hnone : ∀ subtree key,name≠keyWithPrefix subtree key :=
      fun subtree key he => hname ⟨subtree,key,he⟩
    rw [houtcome.entry name hnone,hother.entry name hnone]

/-- A member with a number for the setting "a". -/
def five : CJson := .mk .number (some keyA) 5 5 none []

/-- A member with null for a key that is not registered. -/
def unknown : CJson := .mk .null (some ⟨CString.ascii ['e'],by decide⟩) 0 0 none []

/-- The number is imported before or behind the unknown member. -/
theorem import_five_on_device : ∃ w next last,Running (device .u8 0 none none) w ∧
    userSettingsSetFromJson calm (memOf []) w (some (.createObject [five,unknown])) true=
      .ok (next,0) ∧
    userSettingsSetFromJson calm (memOf [7]) w (some (.createObject [unknown,five])) true=
      .ok (last,0) ∧ SameStore next last := by
  obtain ⟨w,next,hboot,hrun⟩ : ∃ w next,boot calm (device .u8 0 none none) ∅=.ok w ∧
      userSettingsSetFromJson calm (memOf []) w (some (.createObject [five,unknown])) true=
        .ok (next,0) := ⟨_,_,rfl,rfl⟩
  have hw : Running (device .u8 0 none none) w := running_of_booted (reboot_ok hboot)
  have hpure : PureSetup (device .u8 0 none none) := by
    intro r hr validate hv
    cases List.mem_singleton.mp hr
    cases hv
  have hrefused : ∀ member s bytes,¬Refused calm w member s bytes := by
    intro member s bytes h
    have hmem : registration s∈registered (device .u8 0 none none) := by
      rw [←hw.regs]
      exact List.mem_map_of_mem (getByKey_some h.registered).1
    have hrefused := h.refused
    rw [List.mem_singleton.mp hmem] at hrefused
    cases hrefused
  have hmembers : ∀ members : List CJson,(members.map CJson.string).Nodup →
      (∀ member∈members,member=five ∨ member=unknown) → Members calm w members := by
    intro members hnames hthese
    refine ⟨hnames,fun member hmember => ?_,fun member _ s bytes h =>
      absurd h (hrefused member s bytes)⟩
    rcases hthese member hmember with rfl|rfl
    · exact ⟨⟨_,rfl⟩,nofun⟩
    · exact ⟨⟨_,rfl⟩,nofun⟩
  have hplace : ∀ members,NoneInPlace calm w members :=
    fun _ member _ s bytes h => absurd h (hrefused member s bytes)
  obtain ⟨last,hlast,hsame⟩ := import_depends_on_good (fun _ => rfl) (fun _ => rfl) hpure hw
    (hmembers [five,unknown] (by decide) (by simp)) (hmembers [unknown,five] (by decide) (by simp))
    (fun member _ => by simp [or_comm]) (fun _ => ⟨hplace _,hplace _⟩) hrun (memOf [7])
  exact ⟨w,next,last,hw,hrun,hlast,hsame⟩

/-- A validate callback that refuses the empty value. -/
def nonEmpty : ValidateFn := fun _ _ _ len => len≠0

/-- A member with the empty text for the setting "a". -/
def empty : CJson := .mk .string (some keyA) 0 0 (some ⟨[],List.not_mem_nil⟩) []

/-- The empty text is refused for a bytes setting, but it marks a setting
without a value, whose length it has. -/
theorem refused_empty_marks :
    ¬∀ (env : Env) (setup : Setup) (w next : World) (first second : List CJson)
      (stack other : Mem) (alwaysMarkChanged : Bool),(∀ n,env.saveResult n=0) →
      (∀ n,env.react n=[]) → PureSetup setup → Running setup w → Members env w first →
      Members env w second → (∀ member,Good env w member → (member∈first ↔ member∈second)) →
      userSettingsSetFromJson env stack w (some (.createObject first)) alwaysMarkChanged=
        .ok (next,0) →
      ∃ last,userSettingsSetFromJson env other w (some (.createObject second)) alwaysMarkChanged=
        .ok (last,0) ∧ SameStore next last := by
  intro h
  obtain ⟨w,last,hboot,hlast,hflags⟩ : ∃ w last,
      boot calm (device .bytes 4 none (some nonEmpty)) ∅=.ok w ∧
      userSettingsSetFromJson calm (memOf []) w (some (.createObject [empty])) true=.ok (last,0) ∧
      (w.getByKey keyA).map UserSetting.hasChangedRecently≠
        (last.getByKey keyA).map UserSetting.hasChangedRecently :=
    ⟨_,_,rfl,rfl,by decide +kernel⟩
  have hw : Running (device .bytes 4 none (some nonEmpty)) w := running_of_booted (reboot_ok hboot)
  have hpure : PureSetup (device .bytes 4 none (some nonEmpty)) := by
    intro r hr validate hv
    cases List.mem_singleton.mp hr
    cases hv
    exact fun _ _ _ _ _ _ => rfl
  have hreg : ∀ {key s},w.getByKey key=some s →
      registration s=⟨1,keyA,.bytes,4,none,some nonEmpty⟩ := by
    intro key s hs
    have hmem : registration s∈registered (device .bytes 4 none (some nonEmpty)) := by
      rw [←hw.regs]
      exact List.mem_map_of_mem (getByKey_some hs).1
    exact List.mem_singleton.mp hmem
  have hbytes : ∀ {key s bytes},w.getByKey key=some s →
      importBytes calm.charIsSigned s.type empty=.ok (some bytes) → bytes=[] := by
    intro key s bytes hs hconverts
    have htype : s.type=.bytes := congrArg Registration.type (hreg hs)
    rw [htype] at hconverts
    cases hconverts
    rfl
  have hmembers : Members calm w [empty] := by
    refine ⟨by decide,fun member hmember => ?_,fun member hmember s bytes href => ?_⟩
    · cases List.mem_singleton.mp hmember
      exact ⟨⟨_,rfl⟩,fun _ => ⟨_,rfl,fun _ _ _ _ _ => Nat.zero_le _⟩⟩
    · cases List.mem_singleton.mp hmember
      rw [hbytes href.registered href.converts]
      exact Nat.zero_le _
  have hnone : Members calm w [] := ⟨List.nodup_nil,fun _ hm => absurd hm List.not_mem_nil,
    fun _ hm => absurd hm List.not_mem_nil⟩
  have hbad : ∀ member,Good calm w member → (member∈([] : List CJson) ↔ member∈[empty]) := by
    rintro member ⟨key,s,bytes,_,hs,hconverts,haccepted⟩
    refine iff_of_false List.not_mem_nil fun hmember => ?_
    cases List.mem_singleton.mp hmember
    rw [hbytes hs hconverts,hreg hs] at haccepted
    cases haccepted
  obtain ⟨other,hother,hsame⟩ := h calm _ w w [] [empty] (memOf []) (memOf []) true (fun _ => rfl)
    (fun _ => rfl) hpure hw hnone hmembers hbad rfl
  cases hlast.symm.trans hother
  exact hflags (congrArg (fun s? => s?.map UserSetting.hasChangedRecently) (hsame.record keyA))

end UserSettings.ImportOrder
