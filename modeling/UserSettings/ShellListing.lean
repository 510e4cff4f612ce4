import UserSettings.Iteration
import UserSettings.Moves
import UserSettings.Shell

/-!
# What the shell lists

The commands of the shell that print settings, and the keys that it offers for
completion. The printed lines have no lengths in them; what separates the parts
are characters that numbers and digits do not contain, and quotation marks. So a
listing tells all values and default values, as long as no text contains a
quotation mark itself.
-/

namespace UserSettings.ShellListing

open Bytes Values Settings Storage Store Effects Records Cells Operations Iteration Shell Device
open Transition Commands Moves

/-- Print a setting, or nothing for one that is not shown. -/
def printShown (shown : UserSetting → Bool) (setting : UserSetting) : Except Fault (List UInt8) :=
  if shown setting then prvShellPrintSetting setting else .ok []

/-- Print the items that a context has still to return, or some of them. -/
def printEach (list : SettingsList) (shown : UserSetting → Bool) (ctx : UserSettingsIterCtx) :
    Except Fault (List UInt8) :=
  match _h : (userSettingsListIterNext list ctx).2 with
  | none => .ok []
  | some setting => do
    let line ← printShown shown setting
    let rest ← printEach list shown (userSettingsListIterNext list ctx).1
    return line++rest
termination_by (pending list ctx).length
decreasing_by exact iterNext_shorter _h

/-- List all settings: what is printed and the result. -/
def cmdList (list : SettingsList) : Except Fault (List UInt8×ℤ) :=
  (printEach list (fun _ => true) userSettingsListIterStart).map fun text => (text,0)

/-- List the settings that changed. -/
def cmdListChanged (list : SettingsList) : Except Fault (List UInt8×ℤ) :=
  (printEach list UserSetting.hasChangedRecently userSettingsListIterStart).map fun text => (text,0)

/-- The error of the commands that name a setting. -/
def notFound (key : CString) : List UInt8 :=
  CString.ascii ['S','e','t','t','i','n','g',' ','w','i','t','h',' ','t','h','i','s',' ',
    'k','e','y',' ','n','o','t',' ','f','o','u','n','d',':',' ']++key.bytes

/-- List one setting. -/
def cmdGet (list : SettingsList) (key : CString) : Except Fault (List UInt8×ℤ) :=
  match userSettingsListGetByKey list key with
  | none => .ok (notFound key,-eNoEnt)
  | some s => (prvShellPrintSetting s).map fun text => (text,0)

/-- The loop of the search for a position: the counter stands at the next item. -/
def usByIdxLoop (list : SettingsList) (idx : ℕ) (ctx : UserSettingsIterCtx) (c : ℕ) :
    Option UserSetting :=
  match _h : (userSettingsListIterNext list ctx).2 with
  | none => none
  | some setting =>
    if idx=c then some setting
    else usByIdxLoop list idx (userSettingsListIterNext list ctx).1 (c+1)
termination_by (pending list ctx).length
decreasing_by exact iterNext_shorter _h

/-- Get the setting at a position in the list. -/
def prvGetUsByIdx (list : SettingsList) (idx : ℕ) : Option UserSetting :=
  usByIdxLoop list idx userSettingsListIterStart 0

/-- The key that is offered for completion at a position. -/
def prvShellKeyGet (list : SettingsList) (idx : ℕ) : Option CString :=
  (prvGetUsByIdx list idx).map UserSetting.key

section Loops

variable {list : SettingsList}

/-- The loop prints the shown ones among the pending items. -/
theorem printEach_eq (list : SettingsList) (shown : UserSetting → Bool)
    (ctx : UserSettingsIterCtx) : printEach list shown ctx=
      (((pending list ctx).filter shown).mapM prvShellPrintSetting).map List.flatten := by
  fun_induction printEach list shown ctx with
  | case1 ctx h =>
    rw [iterNext_result,List.head?_eq_none_iff] at h
    rw [h]
    rfl
  | case2 ctx setting h ih =>
    rw [iterNext_result] at h
    obtain ⟨tail,hp⟩ := List.head?_eq_some_iff.mp h
    rw [iterNext_pending,hp,List.tail_cons] at ih
    rw [hp,ih]
    unfold printShown
    by_cases hs : shown setting=true
    · rw [if_pos hs,List.filter_cons_of_pos hs,List.mapM_cons]
      cases prvShellPrintSetting setting with
      | error fault => rfl
      | ok line => cases (tail.filter shown).mapM prvShellPrintSetting <;> rfl
    · rw [if_neg hs,List.filter_cons_of_neg hs]
      cases (tail.filter shown).mapM prvShellPrintSetting <;> rfl

/-- The search counts the pending items. -/
theorem usByIdxLoop_eq (list : SettingsList) (idx : ℕ) (ctx : UserSettingsIterCtx) (c : ℕ)
    (h : c ≤ idx) : usByIdxLoop list idx ctx c=(pending list ctx)[idx-c]? := by
  fun_induction usByIdxLoop list idx ctx c with
  | case1 ctx c hn =>
    rw [iterNext_result,List.head?_eq_none_iff] at hn
    rw [hn,List.getElem?_nil]
  | case2 ctx setting hn =>
    rw [iterNext_result] at hn
    obtain ⟨tail,hp⟩ := List.head?_eq_some_iff.mp hn
    rw [hp,Nat.sub_self,List.getElem?_cons_zero]
  | case3 ctx c setting hn hne ih =>
    rw [iterNext_result] at hn
    obtain ⟨tail,hp⟩ := List.head?_eq_some_iff.mp hn
    have hlater : idx-c=(idx-(c+1))+1 := by omega
    rw [ih (by omega),iterNext_pending,hp,List.tail_cons,hlater,List.getElem?_cons_succ]

/-- What is printed for some keys one after another. -/
def getEach (list : SettingsList) (keys : List CString) : Except Fault (List UInt8×ℤ) :=
  (keys.mapM (cmdGet list)).map fun shown => ((shown.map Prod.fst).flatten,0)

/-- Getting listed settings by their keys prints them. -/
theorem getEach_items {items : List UserSetting} (h : ∀ s∈items,s∈list.items) :
    getEach list (items.map UserSetting.key)=
      (items.mapM prvShellPrintSetting).map fun lines => (lines.flatten,0) := by
  unfold getEach
  induction items with
  | nil => rfl
  | cons s rest ih =>
    have hone : cmdGet list s.key=(prvShellPrintSetting s).map fun text => (text,0) := by
      unfold cmdGet
      rw [show userSettingsListGetByKey list s.key=some s from
        find?_of_nodup list.keysNodup (h s List.mem_cons_self)]
    have hrest := ih fun t ht => h t (List.mem_cons_of_mem _ ht)
    rw [List.map_cons,List.mapM_cons,List.mapM_cons,hone]
    cases prvShellPrintSetting s with
    | error fault => rfl
    | ok line =>
      revert hrest
      cases (rest.map UserSetting.key).mapM (cmdGet list) with
      | error fault =>
        cases rest.mapM prvShellPrintSetting with
        | error other => exact fun hrest => hrest
        | ok lines => exact fun hrest => by cases hrest
      | ok shown =>
        cases rest.mapM prvShellPrintSetting with
        | error other => exact fun hrest => by cases hrest
        | ok lines =>
          intro hrest
          have htexts := congrArg Prod.fst (Except.ok.inj hrest)
          exact congrArg (fun text => Except.ok (ε:=Fault) (line++text,(0 : ℤ))) htexts

end Loops

/-- For every store: the completion offers exactly the registered keys, in
order, and nothing at any later position, and both listings print what the get
command prints for each of these keys, or for those of the settings that
changed. -/
theorem listings_are_gets (list : SettingsList) :
    (∀ idx,prvShellKeyGet list idx=(list.items.map UserSetting.key)[idx]?) ∧
      cmdList list=getEach list (list.items.map UserSetting.key) ∧
      cmdListChanged list=getEach list
        ((list.items.filter UserSetting.hasChangedRecently).map UserSetting.key) := by
  refine ⟨fun idx => ?_,?_,?_⟩
  · unfold prvShellKeyGet prvGetUsByIdx
    rw [usByIdxLoop_eq list idx _ 0 (Nat.zero_le idx),pending_start,Nat.sub_zero,List.getElem?_map]
  · have hall : list.items.filter (fun _ => true)=list.items := List.filter_true _
    unfold cmdList
    rw [printEach_eq,pending_start,getEach_items fun _ hs => hs,hall]
    cases list.items.mapM prvShellPrintSetting <;> rfl
  · unfold cmdListChanged
    rw [printEach_eq,pending_start,getEach_items fun _ hs => List.mem_of_mem_filter hs]
    cases (list.items.filter UserSetting.hasChangedRecently).mapM prvShellPrintSetting <;> rfl

section Separators

variable {α : Type} {texts : List α → Prop} {stop : α}

/-- Every text of a kind ends where the separator behind it stands, whatever
follows. -/
def EndsBefore (stop : α) (texts : List α → Prop) : Prop :=
  ∀ left right rest other,texts left → texts right → left++stop::rest=right++stop::other →
    left=right ∧ rest=other

/-- Texts without the separator. -/
theorem endsBefore_of_notMem [DecidableEq α] (h : ∀ text,texts text → stop∉text) :
    EndsBefore stop texts := by
  intro left right rest other hl hr heq
  have htake : ∀ (text behind : List α),stop∉text →
      (text++stop::behind).takeWhile (fun c => decide (c≠stop))=text := by
    intro text behind hnot
    rw [List.takeWhile_append_of_pos fun c hc => by
      have hne : c≠stop := fun he => hnot (he ▸ hc)
      simp [hne]]
    simp
  have hsame : left=right := by
    rw [←htake left rest (h left hl),heq,htake right other (h right hr)]
  subst hsame
  exact ⟨rfl,(List.cons.inj (List.append_cancel_left heq)).2⟩

/-- A slash or a text between quotation marks without one inside. -/
def SlashOrQuoted (text : List UInt8) : Prop :=
  text=[47] ∨ ∃ body,(34 : UInt8)∉body ∧ text=quoted body

/-- Quotation marks show where such a text ends. -/
theorem endsBefore_quoted (stop : UInt8) : EndsBefore stop SlashOrQuoted := by
  have hbody : EndsBefore (34 : UInt8) fun body => (34 : UInt8)∉body :=
    endsBefore_of_notMem fun _ h => h
  rintro left right rest other (rfl|⟨body,hl,rfl⟩) (rfl|⟨body',hr,rfl⟩) heq
  · exact ⟨rfl,(List.cons.inj (List.cons.inj heq).2).2⟩
  · exact absurd (List.cons.inj heq).1 (by decide)
  · exact absurd (List.cons.inj heq).1 (by decide)
  · have htail : (body++[34])++stop::rest=(body'++[34])++stop::other := (List.cons.inj heq).2
    rw [List.append_assoc,List.append_assoc] at htail
    obtain ⟨rfl,hrest⟩ := hbody _ _ _ _ hl hr htail
    exact ⟨rfl,(List.cons.inj hrest).2⟩

end Separators

section Cells

/-- A cell that the shell shows as it is: an integer of the width of its type,
or a terminated text without a quotation mark. -/
def PlainCell (type : UserSettingType) : Option (List UInt8) → Prop
  | none => True
  | some bytes =>
    match type with
    | .str => ∃ text : CString,bytes=text.withNul ∧ (34 : UInt8)∉text.bytes
    | .bytes => True
    | .bool | .u8 | .u16 | .u32 | .u64 | .i8 | .i16 | .i32 | .i64 =>
      prvTypeToSize type=some bytes.length

/-- The text of a cell. -/
def cellText (type : UserSettingType) : Option (List UInt8) → List UInt8
  | none => CString.ascii ['/']
  | some bytes =>
    match type with
    | .str => quoted bytes.dropLast
    | .bytes => hexText bytes
    | .bool | .u8 | .u16 | .u32 | .u64 | .i8 | .i16 | .i32 | .i64 =>
      decimal (readAs type bytes.length (memOf bytes))

/-- Half of a record is printed as the text of its cell. -/
theorem printHalf_eq {type : UserSettingType} {size len : ℕ} {data : Buffer size} {isSet : Bool}
    (hok : HalfOk data len isSet)
    (h : PlainCell type (if isSet then some (data.bytes.take len) else none)) :
    printHalf type isSet data len=
      .ok (cellText type (if isSet then some (data.bytes.take len) else none)) := by
  cases isSet with
  | false => rfl
  | true =>
    have hbytes : bytesAt data.mem len=data.bytes.take len := data.bytesAt_mem hok.len_le
    have hread : ∀ width,prvTypeToSize type=some width →
        prvTypeToSize type=some (data.bytes.take len).length →
        decimal (readAs type width data.mem)=
          decimal (readAs type (data.bytes.take len).length (memOf (data.bytes.take len))) := by
      intro width hwidth hlength
      have hsame : width=(data.bytes.take len).length :=
        Option.some.inj (hwidth.symm.trans hlength)
      have hlen : (data.bytes.take len).length=len := by rw [←hbytes,length_bytesAt]
      have hmem := bytesAt_memOf_length (data.bytes.take len)
      rw [hsame]
      refine congrArg decimal (loadInteger_congr ?_)
      rw [hmem,hlen,hbytes]
    unfold printHalf printData cellText
    simp only [if_true] at h ⊢
    unfold PlainCell at h
    dsimp only at h
    cases type with
    | str =>
      obtain ⟨text,htext,_⟩ := h
      have hsplit : data.bytes=text.withNul++data.bytes.drop len := by
        rw [←htext]
        exact (List.take_append_drop len data.bytes).symm
      have hstring : cstringAt? data.bytes=some text := by
        rw [hsplit,cstringAt?_append (by simp [CString.withNul]),cstringAt?_withNul]
      have hbody : (data.bytes.take len).dropLast=text.bytes := by
        rw [htext]
        exact List.dropLast_concat
      dsimp only
      rw [hstring,hbody]
    | bytes =>
      dsimp only
      rw [hbytes]
    | bool | u8 | u16 | u32 | u64 | i8 | i16 | i32 | i64 =>
      dsimp only
      rw [hread _ rfl h]

/-- The characters of a decimal text. -/
theorem decimal_char {n : ℤ} {c : UInt8} (h : c∈decimal n) : isDigit c=true ∨ c=45 := by
  unfold decimal at h
  split at h
  · rcases List.mem_cons.mp h with rfl|hmem
    · exact .inr rfl
    · exact .inl (decimalNat_isDigit hmem)
  · exact .inl (decimalNat_isDigit h)

/-- The characters of a text of digits. -/
theorem hexText_char {bytes : List UInt8} {c : UInt8} (h : c∈hexText bytes) :
    ∃ n<16,c=hexDigit n := by
  obtain ⟨byte,_,hdigit⟩ := List.mem_flatMap.mp h
  have hb := byte.toNat_lt
  rcases List.mem_cons.mp hdigit with hhigh|hlow
  · exact ⟨_,by omega,hhigh⟩
  · exact ⟨_,by omega,List.mem_singleton.mp hlow⟩

/-- What stands behind the halves does not occur in numbers and digits. -/
theorem separator_notMem {stop : UInt8} (hstop : stop=44 ∨ stop=10 ∨ stop=47) :
    (∀ n,stop∉decimal n) ∧ ∀ bytes,stop∉hexText bytes := by
  refine ⟨fun n h => ?_,fun bytes h => ?_⟩
  · rcases decimal_char h with hdigit|hsign
    · rcases hstop with rfl|rfl|rfl <;> exact absurd hdigit (by decide)
    · rcases hstop with rfl|rfl|rfl <;> exact absurd hsign (by decide)
  · obtain ⟨n,hn,hc⟩ := hexText_char h
    have hne : ∀ n<16,hexDigit n≠44 ∧ hexDigit n≠10 ∧ hexDigit n≠47 := by decide
    rcases hstop with rfl|rfl|rfl
    · exact (hne n hn).1 hc.symm
    · exact (hne n hn).2.1 hc.symm
    · exact (hne n hn).2.2 hc.symm

/-- The texts of the plain cells of a type. -/
def CellTexts (type : UserSettingType) (text : List UInt8) : Prop :=
  ∃ cell,PlainCell type cell ∧ text=cellText type cell

/-- The texts of plain cells end where the comma or the line feed stands. -/
theorem cellTexts_end (type : UserSettingType) {stop : UInt8} (hstop : stop=44 ∨ stop=10) :
    EndsBefore stop (CellTexts type) := by
  have hstops : stop=44 ∨ stop=10 ∨ stop=47 := hstop.imp_right fun h => .inl h
  obtain ⟨hdecimal,hhex⟩ := separator_notMem hstops
  have hslash : stop∉CString.ascii ['/'] := by
    rcases hstop with rfl|rfl <;> decide
  have hnumber : type≠.str → ∀ text,CellTexts type text → stop∉text := by
    rintro hne text ⟨cell,_,rfl⟩
    cases cell with
    | none => exact hslash
    | some bytes =>
      cases type with
      | str => exact absurd rfl hne
      | bytes => exact hhex bytes
      | bool | u8 | u16 | u32 | u64 | i8 | i16 | i32 | i64 => exact hdecimal _
  by_cases hstr : type=.str
  · subst hstr
    have hquoted : ∀ text,CellTexts .str text → SlashOrQuoted text := by
      rintro text ⟨cell,hplain,rfl⟩
      cases cell with
      | none => exact .inl rfl
      | some bytes =>
        obtain ⟨body,rfl,hnot⟩ := hplain
        refine .inr ⟨body.bytes,hnot,?_⟩
        exact congrArg quoted List.dropLast_concat
    intro left right rest other hl hr heq
    exact endsBefore_quoted stop left right rest other (hquoted left hl) (hquoted right hr) heq
  · exact endsBefore_of_notMem (hnumber hstr)

/-- A missing value does not look like one. -/
theorem cellText_ne_slash {type : UserSettingType} {bytes : List UInt8} :
    cellText type (some bytes)≠[47] := by
  obtain ⟨hdecimal,hhex⟩ := separator_notMem (.inr (.inr rfl) : (47 : UInt8)=44 ∨ _)
  intro h
  have hmem : (47 : UInt8)∈cellText type (some bytes) := by simp [h]
  cases type with
  | str => exact absurd (List.cons.inj h).1 (by decide)
  | bytes => exact hhex bytes hmem
  | bool | u8 | u16 | u32 | u64 | i8 | i16 | i32 | i64 => exact hdecimal _ hmem

/-- A plain cell is told by its text. -/
theorem cellText_injective {type : UserSettingType} {a b : Option (List UInt8)}
    (ha : PlainCell type a) (hb : PlainCell type b) (h : cellText type a=cellText type b) :
    a=b := by
  cases a with
  | none =>
    cases b with
    | none => rfl
    | some right => exact absurd h.symm cellText_ne_slash
  | some left =>
    cases b with
    | none => exact absurd h cellText_ne_slash
    | some right =>
      have hnumber : prvTypeToSize type=some left.length → prvTypeToSize type=some right.length →
          decimal (readAs type left.length (memOf left))=
            decimal (readAs type right.length (memOf right)) → some left=some right := by
        intro hl hr htext
        have hlength : left.length=right.length := Option.some.inj (hl.symm.trans hr)
        have hread : ∀ bytes : List UInt8,
            storeInteger bytes.length (readAs type bytes.length (memOf bytes))=bytes :=
          fun bytes => (storeInteger_loadInteger ..).trans (bytesAt_memOf_length bytes)
        have hvalue := congrArg decimalValue htext
        rw [decimalValue_decimal,decimalValue_decimal] at hvalue
        rw [←hread left,←hread right,hvalue,hlength]
      cases type with
      | str =>
        obtain ⟨body,rfl,_⟩ := ha
        obtain ⟨body',rfl,_⟩ := hb
        have htail : (body.bytes++[0]).dropLast++[34]=(body'.bytes++[0]).dropLast++[34] :=
          (List.cons.inj h).2
        have hbody := List.append_cancel_right htail
        rw [List.dropLast_concat,List.dropLast_concat] at hbody
        rw [CString.ext hbody]
      | bytes =>
        have hback : bytesOfHex false (hexText left)=bytesOfHex false (hexText right) :=
          congrArg (bytesOfHex false) h
        rw [bytesOfHex_hexText,bytesOfHex_hexText] at hback
        exact congrArg some hback
      | bool | u8 | u16 | u32 | u64 | i8 | i16 | i32 | i64 => exact hnumber ha hb h

end Cells

section Lines

/-- The line of a registered setting with the cells of some copy. -/
def lineText (copy : Copy) (r : Registration) : List UInt8 :=
  CString.ascii ['i','d',':',' ']++decimal r.id.toNat++
    CString.ascii [',',' ','k','e','y',':',' ']++quoted r.key.bytes++
    CString.ascii [',',' ','v','a','l','u','e',':',' ']++cellText r.type (copy (.value,r.key))++
    CString.ascii [',',' ','d','e','f','a','u','l','t',':',' ']++
    cellText r.type (copy (.default,r.key))++[10]

/-- The value and the default value of a setting in a copy are plain. -/
def PlainAt (copy : Copy) (r : Registration) : Prop :=
  ∀ subtree,subtree≠.changed → PlainCell r.type (copy (subtree,r.key))

variable {w : World} {copy other : Copy}

/-- A registered setting is printed as its line. -/
theorem print_eq {s : UserSetting} (hs : s∈w.list.items) (hok : RecordOk s)
    (hplain : PlainAt (ram w) (registration s)) :
    prvShellPrintSetting s=.ok (lineText (ram w) (registration s)) := by
  have hfound := getByKey_of_mem hs
  have hvalue : ram w (.value,s.key)=if s.isSet then some (s.data.bytes.take s.dataLen) else none :=
    ram_eq hfound .value
  have hdefault : ram w (.default,s.key)=
      if s.defaultIsSet then some (s.defaultData.bytes.take s.defaultDataLen) else none :=
    ram_eq hfound .default
  have hfirst : PlainCell s.type (ram w (.value,s.key)) := hplain .value (by decide)
  have hsecond : PlainCell s.type (ram w (.default,s.key)) := hplain .default (by decide)
  rw [hvalue] at hfirst
  rw [hdefault] at hsecond
  unfold prvShellPrintSetting
  rw [printHalf_eq hok.value hfirst,printHalf_eq hok.default hsecond,←hvalue,←hdefault]
  rfl

/-- A line tells the cells in it, whatever follows. -/
theorem lineText_unique {r : Registration} {rest tail : List UInt8} (hl : PlainAt copy r)
    (hr : PlainAt other r) (h : lineText copy r++rest=lineText other r++tail) :
    (∀ subtree,subtree≠.changed → copy (subtree,r.key)=other (subtree,r.key)) ∧ rest=tail := by
  have htexts : ∀ {some : Copy},PlainAt some r → ∀ subtree,subtree≠.changed →
      CellTexts r.type (cellText r.type (some (subtree,r.key))) :=
    fun hp subtree hne => ⟨_,hp subtree hne,rfl⟩
  unfold lineText at h
  simp only [List.append_assoc] at h
  have hrest := List.append_cancel_left (List.append_cancel_left (List.append_cancel_left
    (List.append_cancel_left (List.append_cancel_left h))))
  obtain ⟨hvalue,hbehind⟩ := cellTexts_end r.type (.inl rfl) _ _ _ _
    (htexts hl .value (by decide)) (htexts hr .value (by decide)) hrest
  have hsecond : cellText r.type (copy (.default,r.key))++10::rest=
      cellText r.type (other (.default,r.key))++10::tail := List.append_cancel_left hbehind
  obtain ⟨hdefault,hend⟩ := cellTexts_end r.type (.inr rfl) _ _ _ _
    (htexts hl .default (by decide)) (htexts hr .default (by decide)) hsecond
  refine ⟨fun subtree hne => ?_,hend⟩
  cases subtree with
  | value => exact cellText_injective (hl .value hne) (hr .value hne) hvalue
  | default => exact cellText_injective (hl .default hne) (hr .default hne) hdefault
  | changed => exact absurd rfl hne

/-- Lines one after another tell all cells in them. -/
theorem lines_unique {regs : List Registration} (hl : ∀ r∈regs,PlainAt copy r)
    (hr : ∀ r∈regs,PlainAt other r)
    (h : regs.flatMap (lineText copy)=regs.flatMap (lineText other)) :
    ∀ r∈regs,∀ subtree,subtree≠.changed → copy (subtree,r.key)=other (subtree,r.key) := by
  induction regs with
  | nil => exact fun r hr => absurd hr List.not_mem_nil
  | cons first rest ih =>
    rw [List.flatMap_cons,List.flatMap_cons] at h
    obtain ⟨hfirst,hrest⟩ :=
      lineText_unique (hl first List.mem_cons_self) (hr first List.mem_cons_self) h
    have hothers := ih (fun r hmem => hl r (List.mem_cons_of_mem first hmem))
      (fun r hmem => hr r (List.mem_cons_of_mem first hmem)) hrest
    intro r hmem
    cases List.mem_cons.mp hmem with
    | inl hsame => exact hsame ▸ hfirst
    | inr hlater => exact hothers r hlater

/-- A listing consists of the lines of all settings. -/
theorem cmdList_eq (hok : AllRecords RecordOk w) (hplain : ∀ r∈registrations w,PlainAt (ram w) r) :
    cmdList w.list=.ok ((registrations w).flatMap (lineText (ram w)),0) := by
  have hall : w.list.items.filter (fun _ => true)=w.list.items := List.filter_true _
  have hlines : ∀ items : List UserSetting,(∀ s∈items,s∈w.list.items) →
      items.mapM prvShellPrintSetting=
        .ok (items.map fun s => lineText (ram w) (registration s)) := by
    intro items
    induction items with
    | nil => exact fun _ => rfl
    | cons s rest ih =>
      intro hitems
      have hs := hitems s List.mem_cons_self
      have hline := print_eq hs (hok s hs) (hplain _ (List.mem_map_of_mem hs))
      rw [List.mapM_cons,hline,ih fun t ht => hitems t (List.mem_cons_of_mem s ht)]
      rfl
  unfold cmdList
  rw [printEach_eq,pending_start,hall,hlines _ fun _ hs => hs]
  unfold registrations
  rw [List.flatMap_map]
  rfl

end Lines

/-- For any two running stores with the same settings, whatever happened to them
before, in which integers have the width of their type and texts are terminated
and contain no quotation mark: both are listed, and the listings are the same
exactly when all values and default values are. -/
theorem listing_tells_settings (setup : Setup) (w v : World) (hw : Running setup w)
    (hv : Running setup v) (hplain : ∀ r∈registered setup,PlainAt (ram w) r)
    (hothers : ∀ r∈registered setup,PlainAt (ram v) r) :
    ∃ shown listed,cmdList w.list=.ok (shown,0) ∧ cmdList v.list=.ok (listed,0) ∧
      (shown=listed ↔
        ∀ subtree,subtree≠.changed → ∀ key,ram w (subtree,key)=ram v (subtree,key)) := by
  have hregs : registrations v=registrations w := hv.regs.trans hw.regs.symm
  have hshown := cmdList_eq hw.records (hw.regs.symm ▸ hplain)
  have hlisted := cmdList_eq hv.records (hv.regs.symm ▸ hothers)
  rw [hregs] at hlisted
  refine ⟨_,_,hshown,hlisted,fun h subtree hne key => ?_,fun h => ?_⟩
  · have hsame := lines_unique (hw.regs.symm ▸ hplain) (hw.regs.symm ▸ hothers) h
    cases hs : w.getByKey key with
    | none =>
      have hnone : v.getByKey key=none := by
        have hf := find_registrations v key
        rw [hregs,←find_registrations,hs] at hf
        exact Option.map_eq_none_iff.mp hf
      unfold ram
      rw [hs,hnone]
    | some s =>
      have hkey := key_of_getByKey hs
      exact hkey ▸ hsame (registration s) (List.mem_map_of_mem (getByKey_some hs).1) subtree hne
  · apply List.flatMap_congr
    intro r _
    unfold lineText
    rw [h .value (by decide),h .default (by decide)]

/-- A device with a text, which was loaded once more and given a command since,
is not listed like a new one. -/
theorem listing_tells_text :
    let setup : Setup := Operations.device .str 4 none none
    let actions : List Action := [.device (.store (.set (.key keyA) (memOf [104,105,0]) 3)),
      .load,.shell (memOf []) .clearChanged]
    ∃ v w shown listed,boot calm setup ∅=.ok v ∧
      run (actionStep calm setup) v actions=some w ∧
      cmdList w.list=.ok (shown,0) ∧ cmdList v.list=.ok (listed,0) ∧ shown≠listed := by
  intro setup actions
  have hdevice : (boot calm setup ∅).toOption.bind (fun v =>
      (run (actionStep calm setup) v actions).map fun w => (ram w (.value,keyA),
        ram w (.default,keyA),ram v (.value,keyA),ram v (.default,keyA)))=
      some (some [104,105,0],none,none,none) := by decide +kernel
  obtain ⟨v,hboot,hdevice⟩ := Option.bind_eq_some_iff.mp hdevice
  obtain ⟨w,hw,hcells⟩ := Option.map_eq_some_iff.mp hdevice
  simp only [Prod.mk.injEq] at hcells
  obtain ⟨hvalue,hdefault,hnone,hempty⟩ := hcells
  have hv := toOption_eq_some.mp hboot
  have hplain : ∀ r∈registered setup,PlainAt (ram w) r := by
    intro r hr subtree hne
    rw [List.mem_singleton.mp hr]
    cases subtree with
    | value =>
      change PlainCell .str (ram w (.value,keyA))
      rw [hvalue]
      exact ⟨⟨[104,105],by decide⟩,rfl,by decide⟩
    | default =>
      change PlainCell .str (ram w (.default,keyA))
      rw [hdefault]
      trivial
    | changed => exact absurd rfl hne
  have hothers : ∀ r∈registered setup,PlainAt (ram v) r := by
    intro r hr subtree hne
    rw [List.mem_singleton.mp hr]
    cases subtree with
    | value =>
      change PlainCell .str (ram v (.value,keyA))
      rw [hnone]
      trivial
    | default =>
      change PlainCell .str (ram v (.default,keyA))
      rw [hempty]
      trivial
    | changed => exact absurd rfl hne
  obtain ⟨shown,listed,hshown,hlisted,hsame⟩ :=
    listing_tells_settings setup w v (running_of_actions hv hw)
      (running_of_booted (Load.reboot_ok hv)) hplain hothers
  refine ⟨v,w,shown,listed,hv,hw,hshown,hlisted,fun h => ?_⟩
  have hcells := hsame.mp h .value (by decide) keyA
  rw [hvalue,hnone] at hcells
  cases hcells

end UserSettings.ShellListing
