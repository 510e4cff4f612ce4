import UserSettings.Commands
import UserSettings.RoundTrip
import UserSettings.LastWrite

/-!
# How text for a bytes setting is taken

An import and the set command convert pairs of characters to bytes, one pair
after another, whatever the characters are and however many. What the text
denotes is stated here on its own: pairs of hexadecimal digits of either case.
The conversion agrees with it on every such text, and takes all others as well.
What the validate callback refuses is an error of the set command only, since
an import goes on after invalid data and returns zero.
-/

namespace UserSettings.HexText

open Bytes Values Settings Storage Store Effects Setters Reactions Records Cells Operations
open Transition Json Commands Load Device Durability RoundTrip Visits Importing LastWrite

/-- The number that a hexadecimal digit of either case denotes. -/
def digitValue? (digit : UInt8) : Option ℕ :=
  if 48 ≤ digit.toNat ∧ digit.toNat ≤ 57 then some (digit.toNat-48)
  else if 65 ≤ digit.toNat ∧ digit.toNat ≤ 70 then some (digit.toNat-55)
  else if 97 ≤ digit.toNat ∧ digit.toNat ≤ 102 then some (digit.toNat-87)
  else none

/-- The bytes that a text denotes: an even number of hexadecimal digits. -/
def denotes? : List UInt8 → Option (List UInt8)
  | [] => some []
  | [_] => none
  | high::low::rest =>
    match digitValue? high,digitValue? low,denotes? rest with
    | some first,some second,some bytes => some (UInt8.ofNat (16*first+second)::bytes)
    | _,_,_ => none

/-- A text denotes bytes that fit into a setting. -/
def Fitting (s : UserSetting) (text : CString) (bytes : List UInt8) : Prop :=
  denotes? text.bytes=some bytes ∧ bytes.length ≤ s.maxSize

/-- Where a text for a bytes setting comes from. -/
inductive Source where
  /-- The member of an object that is imported. -/
  | json (alwaysMarkChanged : Bool)
  /-- A set command of the shell. -/
  | shell

/-- A member with a text. -/
def textMember (key text : CString) : CJson := .mk .string (some key) 0 0 (some text) []

/-- Take a text: import an object with it as its only member, or execute the
set command. -/
def Source.take (env : Env) (stack : Mem) (w : World) (s : UserSetting) (text : CString) :
    Source → Except Fault (World×ℤ)
  | .json alwaysMarkChanged =>
    userSettingsSetFromJson env stack w (some (.createObject [textMember s.key text]))
      alwaysMarkChanged
  | .shell => cmdSet env stack w s.key text

/-- A text is taken safely and strictly. -/
structure Strict (env : Env) (stack : Mem) (w : World) (s : UserSetting) (text : CString)
    (source : Source) : Prop where
  /-- No byte is written behind the array. -/
  safe : ∃ next ret,source.take env stack w s text=.ok (next,ret)
  /-- Bytes that are denoted and fit become the value, unless they are refused
  and nothing happens. -/
  stored : ∀ bytes,Fitting s text bytes →
    ∃ next ret t,source.take env stack w s text=.ok (next,ret) ∧ next.getByKey s.key=some t ∧
      (t.value=bytes ∨ s.validates (stack.write 0 bytes) bytes.length=false ∧ next=w)
  /-- Any other text is an error, and nothing happens. -/
  refused : (∀ bytes,¬Fitting s text bytes) →
    ∃ ret,source.take env stack w s text=.ok (w,ret) ∧ ret≠0

/-- The exact condition on a text. -/
structure Handled (env : Env) (stack : Mem) (w : World) (s : UserSetting) (text : CString)
    (source : Source) : Prop where
  /-- The pairs of characters fit into the array. -/
  room : text.strlen/2 ≤ bytesSize
  /-- Denoted bytes that fit, replace another value and are accepted are not
  empty, and callbacks do not write others to the setting after them. -/
  fitting : ∀ bytes,Fitting s text bytes → bytes≠s.value →
    s.validates (stack.write 0 bytes) bytes.length=true → bytes≠[] ∧
      ∀ last,callbacksWrite env w s (stack.write 0 bytes) bytes.length=some last → last=bytes
  /-- Any other text has too many pairs, or it is given to the shell, and what
  its pairs are converted to is not the present value and refused by the
  validate callback. -/
  other : (∀ bytes,¬Fitting s text bytes) → s.maxSize<text.strlen/2 ∨
    source=.shell ∧ bytesOfHex env.charIsSigned text.bytes≠s.value ∧
      s.validates (stack.write 0 (bytesOfHex env.charIsSigned text.bytes)) (text.strlen/2)=false

variable {env : Env} {setup : Setup} {stack : Mem} {w : World} {s : UserSetting} {text : CString}
  {source : Source}

/-- The digit formula is right on digits. -/
theorem nibble_eq {charIsSigned : Bool} {digit : UInt8} {n : ℕ} (h : digitValue? digit=some n) :
    nibble charIsSigned digit=n := by
  have hascii : digit.toNat<128 := by
    unfold digitValue? at h
    by_contra hlarge
    rw [if_neg (by omega),if_neg (by omega),if_neg (by omega)] at h
    cases h
  rw [nibble_ascii hascii]
  unfold digitValue? at h
  split at h
  · cases h
    omega
  · split at h
    · cases h
      omega
    · split at h
      · cases h
        omega
      · cases h

/-- The conversion is right on texts that denote bytes. -/
theorem bytesOfHex_eq (charIsSigned : Bool) (text bytes : List UInt8)
    (h : denotes? text=some bytes) : bytesOfHex charIsSigned text=bytes := by
  induction text using denotes?.induct generalizing bytes with
  | case1 =>
    cases h
    rfl
  | case2 digit => cases h
  | case3 high low rest first second tail htail hsecond hfirst ih =>
    rw [denotes?,hfirst,hsecond,htail] at h
    cases h
    have hpair : nibble charIsSigned high*16+nibble charIsSigned low=(16*first+second : ℕ) := by
      rw [nibble_eq hfirst,nibble_eq hsecond]
      omega
    rw [bytesOfHex,hpair,ofInt_natCast,ih tail htail]
  | case4 high low rest hnone ih =>
    rw [denotes?] at h
    split at h
    · rename_i first second tail hfirst hsecond htail
      exact absurd htail (hnone first second tail hfirst hsecond)
    · cases h

/-- The conversion makes a byte of each pair. -/
theorem length_bytesOfHex (charIsSigned : Bool) (text : List UInt8) :
    (bytesOfHex charIsSigned text).length=text.length/2 := by
  induction text using List.twoStepInduction with
  | nil => rfl
  | singleton last => simp [bytesOfHex]
  | cons_cons high low rest ih =>
    rw [bytesOfHex,List.length_cons,ih,List.length_cons,List.length_cons]
    omega

/-- Whether an import is to mark every setting; the shell does not ask for it. -/
def Source.marks : Source → Bool
  | .json alwaysMarkChanged => alwaysMarkChanged
  | .shell => false

/-- The result for a result of a set call: an import only stops at an error
other than invalid data. -/
def Source.result (ret : ℤ) : Source → ℤ
  | .json _ => if ret≠0 ∧ ret≠-eInval then ret else 0
  | .shell => ret

/-- Without marking, an import is a set call. -/
theorem imported_unmarked (bytes : List UInt8) : imported env stack false w s bytes=
    prvUserSettingsSet env env.callbacks w s (stack.write 0 bytes) bytes.length := by
  unfold imported
  dsimp only
  split
  · rfl
  · rename_i hret
    rw [if_neg Bool.false_ne_true,←not_not.mp hret]

variable (stack) in
/-- A text with too many pairs is written behind the end of the array. -/
theorem take_overrun (hl : w.isLoaded=true) (hs : w.getByKey s.key=some s) (htype : s.type=.bytes)
    (hlong : bytesSize<text.strlen/2) :
    source.take env stack w s text=.error .overrun := by
  have hfind : userSettingsListGetByKey w.list s.key=some s := hs
  cases source with
  | json alwaysMarkChanged =>
    have hfault : importBytes env.charIsSigned s.type (textMember s.key text)=.error .overrun := by
      rw [htype]
      exact if_pos hlong
    change setAllFromJson env stack alwaysMarkChanged w [textMember s.key text]=_
    rw [setAllFromJson_member,importMember_registered hl (fun h => CJsonKind.noConfusion h) rfl hs,
      prvSetFromJson_fault hfault]
    rfl
  | shell =>
    unfold Source.take cmdSet withName prvSetHelper shellBytes
    dsimp only
    rw [hfind]
    dsimp only
    rw [htype]
    dsimp only
    rw [if_pos hlong]
    rfl

variable (stack) in
/-- Any other text is converted and set. -/
theorem take_eq (hl : w.isLoaded=true) (hs : w.getByKey s.key=some s) (htype : s.type=.bytes)
    (hroom : text.strlen/2 ≤ bytesSize) : source.take env stack w s text=
      .ok ((imported env stack source.marks w s (bytesOfHex env.charIsSigned text.bytes)).1,
        source.result
          (imported env stack source.marks w s (bytesOfHex env.charIsSigned text.bytes)).2) := by
  have hnot : ¬bytesSize<text.strlen/2 := Nat.not_lt.mpr hroom
  cases source with
  | json alwaysMarkChanged =>
    have hbytes : importBytes env.charIsSigned s.type (textMember s.key text)=
        .ok (some (bytesOfHex env.charIsSigned text.bytes)) := by
      rw [htype]
      exact if_neg hnot
    change setAllFromJson env stack alwaysMarkChanged w [textMember s.key text]=_
    rw [setAllFromJson_member,importMember_bytes hl rfl hs hbytes]
    generalize bytesOfHex env.charIsSigned text.bytes=bytes
    by_cases hstop : (imported env stack alwaysMarkChanged w s bytes).2≠0 ∧
        (imported env stack alwaysMarkChanged w s bytes).2≠-eInval
    · exact (if_pos hstop).trans
        (congrArg (fun ret => Except.ok (_,ret)) (if_pos hstop).symm)
    · exact (if_neg hstop).trans
        (congrArg (fun ret => Except.ok (_,ret)) (if_neg hstop).symm)
  | shell =>
    change cmdSet env stack w s.key text=.ok (imported env stack false w s _)
    rw [imported_unmarked]
    refine cmdSet_eq hl hs ?_
    rw [htype]
    exact if_neg hnot

/-- Bytes that are denoted are what the text is converted to. -/
theorem fitting_eq (charIsSigned : Bool) {bytes : List UInt8} (h : Fitting s text bytes) :
    bytesOfHex charIsSigned text.bytes=bytes := bytesOfHex_eq charIsSigned _ _ h.1

/-- A text that is taken safely and strictly meets the condition. -/
theorem handled_of_strict (hw : Running setup w) (hs : w.getByKey s.key=some s)
    (htype : s.type=.bytes) (h : Strict env stack w s text source) :
    Handled env stack w s text source := by
  have hok := hw.records.getByKey hs
  have hlen : (bytesOfHex env.charIsSigned text.bytes).length=text.strlen/2 :=
    length_bytesOfHex env.charIsSigned text.bytes
  have hroom : text.strlen/2 ≤ bytesSize := by
    by_contra hlong
    obtain ⟨next,ret,hrun⟩ := h.safe
    rw [take_overrun stack hw.isLoaded hs htype (Nat.lt_of_not_le hlong)] at hrun
    cases hrun
  have hrun : source.take env stack w s text=_ := take_eq stack hw.isLoaded hs htype hroom
  refine ⟨hroom,fun bytes hfit hne hvalid => ?_,fun hnone => ?_⟩
  · have hwrites := writes_stack hok hfit.2 hne hvalid
    obtain ⟨left,hleft,_⟩ : ∃ t,(valueWritten env.callbacks w s (stack.write 0 bytes)
        bytes.length).getByKey s.key=some t ∧ _ := valueWritten_record hs hwrites
    obtain ⟨flag,hflag⟩ : ∃ flag,(imported env stack source.marks w s bytes).1.getByKey s.key=_ :=
      imported_written hs hwrites hleft
    obtain ⟨next,ret,t,hnext,ht,hstored⟩ := h.stored bytes hfit
    rw [hrun,fitting_eq env.charIsSigned hfit] at hnext
    rcases hstored with hvalue|⟨hrefused,_⟩
    · have hstate : (imported env stack source.marks w s bytes).1=next :=
        congrArg Prod.fst (Except.ok.inj hnext)
      rw [hstate,ht] at hflag
      rw [Option.some.inj hflag] at hvalue
      have hnonempty : bytes≠[] := by
        -- no bytes leave the old value
        rintro rfl
        have hsame : valueWritten env.callbacks w s (stack.write 0 []) ([] : List UInt8).length=w :=
          if_pos rfl
        rw [hsame,hs] at hleft
        cases hleft
        exact hne hvalue.symm
      have hleave := (callbacks_leave_iff hs hfit.2 (mt List.length_eq_zero_iff.mp hnonempty)
        hleft).2
      rw [read_stack] at hleave
      exact ⟨hnonempty,hleave.mp hvalue⟩
    · rw [hvalid] at hrefused
      cases hrefused
  · obtain ⟨ret,hkept,hret⟩ := h.refused hnone
    rw [hrun] at hkept
    have hkept := Except.ok.inj hkept
    rcases bytes_cases hok stack (bytesOfHex env.charIsSigned text.bytes) with
      hlong|hsame|⟨hfits,hne,hrefused⟩|hwrites
    · exact .inl (hlen ▸ hlong)
    · rw [imported_same hok hs hsame] at hkept
      refine absurd (congrArg Prod.snd hkept).symm ?_
      cases source <;> exact hret
    · refine .inr ⟨?_,hne,hlen ▸ hrefused⟩
      cases source with
      | json alwaysMarkChanged =>
        rw [imported_refused hok hfits hne hrefused] at hkept
        exact absurd (congrArg Prod.snd hkept).symm hret
      | shell => rfl
    · have hsaves : w.saves<(imported env stack source.marks w s
          (bytesOfHex env.charIsSigned text.bytes)).1.saves := imported_saves_lt hs hwrites
      rw [congrArg Prod.fst hkept] at hsaves
      exact absurd hsaves (lt_irrefl _)

/-- A text that meets the condition is taken safely and strictly. -/
theorem strict_of_handled (hw : Running setup w) (hs : w.getByKey s.key=some s)
    (htype : s.type=.bytes) (h : Handled env stack w s text source) :
    Strict env stack w s text source := by
  have hok := hw.records.getByKey hs
  have hlen : (bytesOfHex env.charIsSigned text.bytes).length=text.strlen/2 :=
    length_bytesOfHex env.charIsSigned text.bytes
  have hrun : source.take env stack w s text=_ := take_eq stack hw.isLoaded hs htype h.room
  refine ⟨⟨_,_,hrun⟩,fun bytes hfit => ?_,fun hnone => ?_⟩
  · rw [hrun,fitting_eq env.charIsSigned hfit]
    by_cases hsame : bytes=s.value
    · obtain ⟨flag,hflag⟩ : ∃ flag,(imported env stack source.marks w s bytes).1.getByKey s.key=_ :=
        imported_same_record hok hs hsame
      exact ⟨_,_,_,rfl,hflag,.inl hsame.symm⟩
    · cases hvalid : s.validates (stack.write 0 bytes) bytes.length with
      | true =>
        obtain ⟨hnonempty,hlast⟩ := h.fitting bytes hfit hsame hvalid
        have hwrites := writes_stack hok hfit.2 hsame hvalid
        obtain ⟨left,hleft,_⟩ : ∃ t,(valueWritten env.callbacks w s (stack.write 0 bytes)
            bytes.length).getByKey s.key=some t ∧ _ := valueWritten_record hs hwrites
        obtain ⟨flag,hflag⟩ :
            ∃ flag,(imported env stack source.marks w s bytes).1.getByKey s.key=_ :=
          imported_written hs hwrites hleft
        have hleave := (callbacks_leave_iff hs hfit.2 (mt List.length_eq_zero_iff.mp hnonempty)
          hleft).2
        rw [read_stack] at hleave
        exact ⟨_,_,_,rfl,hflag,.inl (hleave.mpr hlast)⟩
      | false =>
        rw [imported_refused hok hfit.2 hsame hvalid]
        exact ⟨w,_,s,rfl,hs,.inr ⟨rfl,rfl⟩⟩
  · rw [hrun]
    by_cases hfits : (bytesOfHex env.charIsSigned text.bytes).length ≤ s.maxSize
    · obtain ⟨rfl,hne,hrefused⟩ := (h.other hnone).resolve_left (by omega)
      rw [←hlen] at hrefused
      rw [imported_refused hok hfits hne hrefused]
      have herr : -eInval≠0 := by decide
      exact ⟨_,rfl,herr⟩
    · have herr : -eNoMem≠0 ∧ -eNoMem≠-eInval := by decide
      rw [imported_long (Nat.lt_of_not_le hfits)]
      refine ⟨_,rfl,?_⟩
      cases source with
      | json alwaysMarkChanged =>
        have hstop : Source.result (-eNoMem) (.json alwaysMarkChanged)=-eNoMem := rfl
        exact hstop.trans_ne herr.1
      | shell => exact herr.1

/-- For every running store, whatever callbacks do and storage answers, with
signed and with unsigned characters, every bytes setting and every text of any
length, imported or given to the shell: the text is taken safely and strictly
if and only if it meets the condition. -/
theorem strict_iff_handled (hw : Running setup w) (hs : s∈w.list.items) (htype : s.type=.bytes)
    (text : CString) (stack : Mem) (source : Source) :
    Strict env stack w s text source ↔ Handled env stack w s text source :=
  ⟨handled_of_strict hw (getByKey_of_mem hs) htype,strict_of_handled hw (getByKey_of_mem hs) htype⟩

/-- A text of two digits. -/
def twoDigits : CString := ⟨CString.ascii ['c','3'],by decide⟩

/-- A device takes two digits from an import. -/
theorem strict_on_device : ∃ w s,Running (device .bytes 4 none none) w ∧ s∈w.list.items ∧
    Strict calm (memOf []) w s twoDigits (.json false) ∧ Fitting s twoDigits [195] := by
  have hreach : Reachable calm (device .bytes 4 none none) ∅ _ := ⟨_,[],rfl,rfl⟩
  refine ⟨_,_,running_of_reachable hreach,List.mem_cons_self,
    (strict_iff_handled (running_of_reachable hreach) List.mem_cons_self rfl _ _ _).mpr
      ⟨by decide,fun bytes hfit _ _ => ⟨?_,fun last hlast => ?_⟩,fun hnone => ?_⟩,rfl,by decide⟩
  · rintro rfl
    exact absurd hfit.1 (by decide)
  · rw [callbacksWrite_quiet fun _ => rfl] at hlast
    cases hlast
  · exact absurd ⟨rfl,by decide⟩ (hnone [195])

/-- A text without any digit. -/
def noDigits : CString := ⟨CString.ascii ['z','z'],by decide⟩

/-- A text without any digit is set. -/
theorem no_digits_stored :
    ¬∀ (env : Env) (setup : Setup) (w : World) (s : UserSetting) (text : CString) (stack : Mem)
      (source : Source),Running setup w → s∈w.list.items → s.type=.bytes →
      Strict env stack w s text source := by
  intro h
  obtain ⟨w,s,next,hboot,hmem,htype,hnext⟩ : ∃ w s next,
      boot calm (device .bytes 4 none none) ∅=.ok w ∧ s∈w.list.items ∧ s.type=.bytes ∧
      Source.shell.take calm (memOf []) w s noDigits=.ok (next,0) :=
    ⟨_,_,_,rfl,List.mem_cons_self,rfl,rfl⟩
  have hdenotes : denotes? noDigits.bytes=none := rfl
  have hnone : ∀ bytes,¬Fitting s noDigits bytes :=
    fun bytes hfit => Option.some_ne_none bytes (hfit.1.symm.trans hdenotes)
  obtain ⟨ret,hrun,hret⟩ := (h calm _ w s noDigits (memOf []) .shell
    (running_of_booted (reboot_ok hboot)) hmem htype).refused hnone
  exact hret (congrArg Prod.snd (Except.ok.inj (hrun.symm.trans hnext)))

end UserSettings.HexText
