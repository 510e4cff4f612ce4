import UserSettings.Isolation
import UserSettings.Listing

/-!
# Which buffers are commands

The documentation of the binary protocol lists nine commands with the exact
bytes of each. A buffer holds a command when all its bytes are those of one.
The decoder answers a buffer as documented exactly when three kinds of lengths
that it does not compare are right.
-/

namespace UserSettings.Decoding

open Bytes Settings Binary Executor Isolation Listing

/-- The documented SET and SET DEFAULT commands. -/
def setCommand (isDefault : Bool) (id : UInt16) (value : List UInt8) : List UInt8 :=
  (if isDefault then 6 else 5)::idBytes id++UInt8.ofNat value.length::value

/-- A command of the documented protocol with its parameters. -/
inductive Command where
  /-- LIST and LIST FULL: the type byte alone. -/
  | list (full : Bool)
  /-- RESTORE: the type byte alone. -/
  | restore
  /-- GET and GET FULL: an identifier. -/
  | get (full : Bool) (id : UInt16)
  /-- SET and SET DEFAULT: an identifier, a length and that many bytes. -/
  | set (isDefault : Bool) (id : UInt16) (value : List UInt8)
    (fits : 1 ≤ value.length ∧ value.length≤255)
  /-- LIST SOME and LIST SOME FULL: a number and that many identifiers. -/
  | listSome (full : Bool) (ids : List UInt16) (fits : ids.length≤255)

namespace Command

/-- The type of a command. -/
def type : Command → UserSettingsProtocolCommandType
  | .list full => if full then .listFull else .list
  | .restore => .restore
  | .get full _ => if full then .getFull else .get
  | .set isDefault _ _ _ => if isDefault then .setDefault else .set
  | .listSome full _ _ => if full then .listSomeFull else .listSome

/-- The bytes of a command, as documented. -/
def bytes : Command → List UInt8
  | .list full => listCommand full
  | .restore => [7]
  | .get full id => getCommand full id
  | .set isDefault id value _ => setCommand isDefault id value
  | .listSome full ids _ => listSomeCommand full ids

/-- A decoded command has the type, identifier and value that were written; a
list command has the identifiers in order. -/
def DecodedAs (command : Command) (decoded : UserSettingsProtocolCommand) : Prop :=
  commandType? decoded.type=some command.type ∧
    match command with
    | .list _ | .restore => True
    | .get _ id => decoded.id=id
    | .set _ id value _ => decoded.id=id ∧ decoded.valueLen.toNat=value.length ∧
      bytesAt decoded.value.mem value.length=value
    | .listSome _ ids _ => decoded.valueLen.toNat=2*ids.length ∧
      words decoded.value.mem ids.length=ids

end Command

/-- All bytes of a buffer are those of a command. -/
def Holds (buffer : Mem) (len : UInt32) (command : Command) : Prop :=
  bytesAt buffer len.toNat=command.bytes

/-- The decoder treats a buffer as documented. -/
structure DecodesAsDocumented (buffer : Mem) (len : UInt32) : Prop where
  /-- A positive count means that the whole buffer is a command, and conversely. -/
  positive : 0<(userSettingsProtocolBinaryDecodeCommand buffer len).ret ↔
    ∃ command,Holds buffer len command
  /-- The count is the length and the command the one in the buffer. -/
  decoded : ∀ command,Holds buffer len command →
    (userSettingsProtocolBinaryDecodeCommand buffer len).ret=len.toNat ∧
      command.DecodedAs (userSettingsProtocolBinaryDecodeCommand buffer len).command
  /-- Everything else is refused; an unknown type byte has its own code. -/
  refused : (¬∃ command,Holds buffer len command) →
    (userSettingsProtocolBinaryDecodeCommand buffer len).ret=
      if len≠0 ∧ commandType? (buffer 0)=none then -eNotSup else -eProto

/-- The lengths that the decoder does not compare are right. -/
structure ExactLengths (buffer : Mem) (len : UInt32) : Prop where
  /-- Nothing stands behind the type byte of LIST, LIST FULL and RESTORE. -/
  plain : commandType? (buffer 0)=some .list ∨ commandType? (buffer 0)=some .listFull ∨
    commandType? (buffer 0)=some .restore → len≠0 → len.toNat=1
  /-- As many value bytes as announced stand behind the length byte. -/
  value : commandType? (buffer 0)=some .set ∨ commandType? (buffer 0)=some .setDefault →
    5 ≤ len.toNat → len.toNat=4+(buffer 3).toNat
  /-- There is no odd byte behind the identifiers, and at most 127 of these. -/
  ids : commandType? (buffer 0)=some .listSome ∨ commandType? (buffer 0)=some .listSomeFull →
    2 ≤ len.toNat → (len.toNat-2)/2=(buffer 1).toNat →
    len.toNat=2+2*(buffer 1).toNat ∧ (buffer 1).toNat≤127

section Reading

variable {buffer : Mem} {n : ℕ}

/-- A buffer that is not empty begins with its first byte. -/
theorem bytesAt_succ (buffer : Mem) (n : ℕ) :
    bytesAt buffer (1+n)=buffer 0::bytesAt (behind buffer 1) n := by
  rw [bytesAt_add]
  rfl

/-- An identifier has the bytes it was read from. -/
theorem idBytes_word16 (buffer : Mem) (offset : ℕ) :
    idBytes (word16 buffer offset)=bytesAt (behind buffer offset) 2 := by
  have hlt := leNat_lt (bytesAt (behind buffer offset) 2)
  have hback := leBytes_leNat (bytesAt (behind buffer offset) 2)
  rw [length_bytesAt] at hlt hback
  have hval : (word16 buffer offset).toNat=leNat (bytesAt (behind buffer offset) 2) :=
    UInt16.toNat_ofNat_of_lt' hlt
  unfold idBytes
  rw [hval]
  exact hback

/-- An identifier was read from its bytes. -/
theorem word16_eq_iff {offset : ℕ} {id : UInt16} :
    bytesAt (behind buffer offset) 2=idBytes id ↔ word16 buffer offset=id := by
  constructor
  · exact word16_of_idBytes
  · rintro rfl
    exact (idBytes_word16 buffer offset).symm

/-- Identifiers have the bytes they were read from. -/
theorem flatMap_words (ids : Mem) (numIds : ℕ) :
    (words ids numIds).flatMap idBytes=bytesAt ids (2*numIds) := by
  induction numIds generalizing ids with
  | zero => rfl
  | succ numIds ih =>
    have hlen : 2*(numIds+1)=2+2*numIds := by omega
    rw [words_succ,List.flatMap_cons,ih,hlen,bytesAt_add,idBytes_word16,behind_zero]

/-- Identifiers were read from their bytes. -/
theorem words_eq_iff {ids : List UInt16} :
    bytesAt buffer (2*ids.length)=ids.flatMap idBytes ↔ words buffer ids.length=ids := by
  constructor
  · exact words_of_idBytes
  · intro h
    rw [←flatMap_words,h]

/-- A length byte announces as many bytes as there are. -/
theorem byte_eq_iff {byte : UInt8} {len : ℕ} (h : len≤255) :
    byte=UInt8.ofNat len ↔ byte.toNat=len := by
  have hlen : (UInt8.ofNat len).toNat=len := UInt8.toNat_ofNat_of_lt' (by
    unfold UInt8.size
    omega)
  rw [←UInt8.toNat_inj,hlen]

/-- A buffer holds a GET command when it consists of three bytes. -/
theorem holds_get_iff {full : Bool} {id : UInt16} : bytesAt buffer n=getCommand full id ↔
    n=3 ∧ buffer 0=(if full then 2 else 1) ∧ word16 buffer 1=id := by
  constructor
  · intro h
    have hn : n=1+2 := by
      have hlen := congrArg List.length h
      rw [length_bytesAt] at hlen
      exact hlen
    rw [hn,bytesAt_succ] at h
    have hparts := List.cons.inj h
    exact ⟨hn,hparts.1,word16_of_idBytes hparts.2⟩
  · rintro ⟨rfl,h0,hid⟩
    rw [show 3=1+2 from rfl,bytesAt_succ,word16_eq_iff.mpr hid,h0]
    rfl

/-- A buffer holds a SET command when its length byte and its length agree. -/
theorem holds_set_iff {isDefault : Bool} {id : UInt16} {value : List UInt8}
    (hfit : value.length≤255) : bytesAt buffer n=setCommand isDefault id value ↔
      n=4+value.length ∧ buffer 0=(if isDefault then 6 else 5) ∧ word16 buffer 1=id ∧
        (buffer 3).toNat=value.length ∧ bytesAt (behind buffer 4) value.length=value := by
  have hsplit : bytesAt buffer (4+value.length)=
      buffer 0::
        (bytesAt (behind buffer 1) 2++buffer 3::bytesAt (behind buffer 4) value.length) := by
    have hlen : 4+value.length=1+(2+(1+value.length)) := by omega
    rw [hlen,bytesAt_succ,bytesAt_add,bytesAt_succ,behind_behind,behind_behind]
    rfl
  constructor
  · intro h
    have hn : n=4+value.length := by
      have hlen := congrArg List.length h
      unfold setCommand idBytes at hlen
      simp only [length_bytesAt,List.length_cons,List.length_append,List.length_nil] at hlen
      omega
    rw [hn,hsplit] at h
    have hhead := List.cons.inj h
    have hid := List.append_inj hhead.2 (by rw [length_bytesAt]; rfl)
    have htail := List.cons.inj hid.2
    exact ⟨hn,hhead.1,word16_of_idBytes hid.1,(byte_eq_iff hfit).mp htail.1,htail.2⟩
  · rintro ⟨rfl,h0,hid,hlen,hvalue⟩
    rw [hsplit,word16_eq_iff.mpr hid,hvalue,(byte_eq_iff hfit).mpr hlen,h0]
    rfl

/-- A buffer holds a LIST SOME command when its count and its length agree. -/
theorem holds_listSome_iff {full : Bool} {ids : List UInt16} (hfit : ids.length≤255) :
    bytesAt buffer n=listSomeCommand full ids ↔
      n=2+2*ids.length ∧ buffer 0=(if full then 9 else 8) ∧ (buffer 1).toNat=ids.length ∧
        words (behind buffer 2) ids.length=ids := by
  have hsplit : bytesAt buffer (2+2*ids.length)=
      buffer 0::buffer 1::bytesAt (behind buffer 2) (2*ids.length) := by
    have hlen : 2+2*ids.length=1+(1+2*ids.length) := by omega
    rw [hlen,bytesAt_succ,bytesAt_succ,behind_behind]
    rfl
  constructor
  · intro h
    have hn : n=2+2*ids.length := by
      have hlen := congrArg List.length h
      unfold listSomeCommand at hlen
      simp only [length_bytesAt,List.length_cons,List.length_append,List.length_nil,
        length_flatMap_idBytes] at hlen
      omega
    rw [hn,hsplit] at h
    have hhead := List.cons.inj h
    have hcount := List.cons.inj hhead.2
    exact ⟨hn,hhead.1,(byte_eq_iff hfit).mp hcount.1,words_of_idBytes hcount.2⟩
  · rintro ⟨rfl,h0,hcount,hids⟩
    rw [hsplit,(byte_eq_iff hfit).mpr hcount,words_eq_iff.mpr hids,h0]
    rfl

end Reading

variable {buffer : Mem} {len : UInt32} {command : Command}

/-- A command begins with the byte of its type. -/
theorem Command.bytes_eq_cons (command : Command) :
    ∃ byte rest,command.bytes=byte::rest ∧ commandType? byte=some command.type := by
  cases command with
  | list full => cases full <;> exact ⟨_,_,rfl,rfl⟩
  | restore => exact ⟨_,_,rfl,rfl⟩
  | get full id => cases full <;> exact ⟨_,_,rfl,rfl⟩
  | set isDefault id value fits => cases isDefault <;> exact ⟨_,_,rfl,rfl⟩
  | listSome full ids fits => cases full <;> exact ⟨_,_,rfl,rfl⟩

/-- A buffer with a command is not empty and begins with the type. -/
theorem Holds.type (h : Holds buffer len command) :
    len≠0 ∧ commandType? (buffer 0)=some command.type := by
  obtain ⟨byte,rest,hbytes,htype⟩ := command.bytes_eq_cons
  unfold Holds at h
  rw [hbytes] at h
  have hlen := congrArg List.length h
  rw [length_bytesAt,List.length_cons,Nat.add_comm] at hlen
  rw [hlen,bytesAt_succ] at h
  refine ⟨?_,(List.cons.inj h).1 ▸ htype⟩
  rintro rfl
  change 0=_ at hlen
  omega

/-- The byte of a type is known. -/
theorem commandType?_eq_some {byte : UInt8} {type : UserSettingsProtocolCommandType}
    (h : commandType? byte=some type) :
    byte=match type with
      | .get => 1
      | .getFull => 2
      | .list => 3
      | .listFull => 4
      | .set => 5
      | .setDefault => 6
      | .restore => 7
      | .listSome => 8
      | .listSomeFull => 9 := by
  unfold commandType? at h
  split at h <;> cases h <;> apply UInt8.toNat_inj.mp <;> assumption

/-- The command before its parameters are decoded. -/
def typed (buffer : Mem) : UserSettingsProtocolCommand :=
  {UserSettingsProtocolCommand.zero with type := buffer 0}

section Equations

variable (hn : len≠0)
include hn

/-- A command without parameters is decoded at once. -/
theorem decode_plain (ht : commandType? (buffer 0)=some .list ∨
      commandType? (buffer 0)=some .listFull ∨ commandType? (buffer 0)=some .restore) :
    userSettingsProtocolBinaryDecodeCommand buffer len=⟨1,typed buffer,[0],[]⟩ := by
  unfold userSettingsProtocolBinaryDecodeCommand
  rw [if_neg hn]
  rcases ht with ht|ht|ht <;> simp only [ht] <;> rfl

/-- A command with an identifier. -/
theorem decode_get (ht : commandType? (buffer 0)=some .get ∨
      commandType? (buffer 0)=some .getFull) :
    userSettingsProtocolBinaryDecodeCommand buffer len=
      if len≠3 then ⟨-eProto,typed buffer,[0],[]⟩
      else ⟨3,{typed buffer with id := word16 buffer 1},[0,1,2],[]⟩ := by
  unfold userSettingsProtocolBinaryDecodeCommand
  rw [if_neg hn]
  rcases ht with ht|ht <;> simp only [ht] <;> rfl

/-- A command with a value. -/
theorem decode_set (ht : commandType? (buffer 0)=some .set ∨
      commandType? (buffer 0)=some .setDefault) :
    userSettingsProtocolBinaryDecodeCommand buffer len=decodeValue buffer len (typed buffer) := by
  unfold userSettingsProtocolBinaryDecodeCommand
  rw [if_neg hn]
  rcases ht with ht|ht <;> simp only [ht] <;> rfl

/-- A command with identifiers. -/
theorem decode_ids (ht : commandType? (buffer 0)=some .listSome ∨
      commandType? (buffer 0)=some .listSomeFull) :
    userSettingsProtocolBinaryDecodeCommand buffer len=decodeIds buffer len (typed buffer) := by
  unfold userSettingsProtocolBinaryDecodeCommand
  rw [if_neg hn]
  rcases ht with ht|ht <;> simp only [ht] <;> rfl

/-- A type byte without a command. -/
theorem decode_unknown (ht : commandType? (buffer 0)=none) :
    userSettingsProtocolBinaryDecodeCommand buffer len=⟨-eNotSup,typed buffer,[0],[]⟩ := by
  unfold userSettingsProtocolBinaryDecodeCommand
  rw [if_neg hn]
  simp only [ht]
  rfl

end Equations

/-- The codes of what is refused. -/
theorem ret_of_not_positive (h : ¬0<(userSettingsProtocolBinaryDecodeCommand buffer len).ret) :
    (userSettingsProtocolBinaryDecodeCommand buffer len).ret=
      if len≠0 ∧ commandType? (buffer 0)=none then -eNotSup else -eProto := by
  by_cases hn : len=0
  · unfold userSettingsProtocolBinaryDecodeCommand
    rw [if_pos hn,if_neg fun hc => hc.1 hn]
  · cases ht : commandType? (buffer 0) with
    | none => rw [decode_unknown hn ht,if_pos ⟨hn,rfl⟩]
    | some type =>
      rw [if_neg fun hc => nomatch hc.2]
      cases type with
      | list | listFull | restore =>
        rw [decode_plain hn (by rw [ht]; simp)] at h
        dsimp only at h
        omega
      | get | getFull =>
        rw [decode_get hn (by rw [ht]; simp)] at h ⊢
        split
        · rfl
        · rename_i hlen
          rw [if_neg hlen] at h
          dsimp only at h
          omega
      | set | setDefault =>
        rw [decode_set hn (by rw [ht]; simp)] at h ⊢
        unfold decodeValue at h ⊢
        split
        · rfl
        · rename_i hlen
          rw [if_neg hlen] at h
          dsimp only at h
          omega
      | listSome | listSomeFull =>
        rw [decode_ids hn (by rw [ht]; simp)] at h ⊢
        unfold decodeIds at h ⊢
        dsimp only at h ⊢
        split
        · rfl
        · rename_i hlen
          rw [if_neg hlen] at h
          dsimp only at h
          omega

/-- A SET command in the buffer is decoded as that. -/
theorem decoded_set {isDefault : Bool} {id : UInt16} {value : List UInt8}
    {fits : 1 ≤ value.length ∧ value.length≤255}
    (h : Holds buffer len (.set isDefault id value fits)) :
    (userSettingsProtocolBinaryDecodeCommand buffer len).ret=len.toNat ∧
      (Command.set isDefault id value fits).DecodedAs
        (userSettingsProtocolBinaryDecodeCommand buffer len).command := by
  obtain ⟨hn,htype⟩ := h.type
  obtain ⟨hlen,_,hid,hcount,hvalue⟩ := (holds_set_iff fits.2).mp h
  have h5 : ¬len<5 := by
    rw [UInt32.lt_iff_toNat_lt]
    change ¬len.toNat<5
    omega
  have hsize : value.length ≤ valueSize := by
    change _≤256
    omega
  have hkept : bytesAt ((Buffer.zero valueSize).write value).mem value.length=value := by
    rw [Buffer.bytesAt_mem _ hsize,Buffer.take_write hsize]
  rw [decode_set hn (by rw [htype]; cases isDefault <;> simp [Command.type])]
  unfold decodeValue
  rw [if_neg h5]
  dsimp only
  rw [hcount,hvalue]
  exact ⟨by omega,htype,hid,hcount,hkept⟩

/-- So is a LIST SOME command with up to 127 identifiers. -/
theorem decoded_listSome {full : Bool} {ids : List UInt16} {fits : ids.length≤255}
    (h : Holds buffer len (.listSome full ids fits)) (hfew : ids.length≤127) :
    (userSettingsProtocolBinaryDecodeCommand buffer len).ret=len.toNat ∧
      (Command.listSome full ids fits).DecodedAs
        (userSettingsProtocolBinaryDecodeCommand buffer len).command := by
  obtain ⟨hn,htype⟩ := h.type
  obtain ⟨hlen,_,hcount,hids⟩ := (holds_listSome_iff fits).mp h
  have hnum : (UInt8.ofNat ids.length).toNat=ids.length :=
    UInt8.toNat_ofNat_of_lt' (by unfold UInt8.size; omega)
  have hdouble : (UInt8.ofNat ids.length*2).toNat=2*ids.length := by
    rw [UInt8.toNat_mul,hnum]
    change ids.length*2%256=_
    omega
  have hhalf : (UInt8.ofNat ids.length*2/2).toNat=ids.length := by
    rw [UInt8.toNat_div,hdouble]
    change 2*ids.length/2=_
    omega
  have hwords := announced_words (hfew.trans (by decide))
  rw [hhalf,if_neg (by omega)] at hwords
  have haccepted := decodeIds_accepted fits hlen ((byte_eq_iff fits).mpr hcount)
    (words_eq_iff.mpr hids) (typed buffer)
  rw [decode_ids hn (by rw [htype]; cases full <;> simp [Command.type]),haccepted]
  dsimp only
  rw [hdouble]
  exact ⟨by omega,htype,hdouble,hwords⟩

/-- Where the lengths are right, every command in the buffer is decoded as that. -/
theorem decoded_of_holds (he : ExactLengths buffer len) (h : Holds buffer len command) :
    (userSettingsProtocolBinaryDecodeCommand buffer len).ret=len.toNat ∧
      command.DecodedAs (userSettingsProtocolBinaryDecodeCommand buffer len).command := by
  obtain ⟨hn,htype⟩ := h.type
  cases command with
  | list full =>
    have hplain : commandType? (buffer 0)=some .list ∨ commandType? (buffer 0)=some .listFull ∨
        commandType? (buffer 0)=some .restore := by
      rw [htype]
      cases full <;> simp [Command.type]
    have hone := he.plain hplain hn
    rw [decode_plain hn hplain,hone]
    exact ⟨rfl,htype,trivial⟩
  | restore =>
    have hone := he.plain (.inr (.inr htype)) hn
    rw [decode_plain hn (.inr (.inr htype)),hone]
    exact ⟨rfl,htype,trivial⟩
  | get full id =>
    obtain ⟨hlen,_,hid⟩ := holds_get_iff.mp h
    have h3 : ¬len≠3 := not_not.mpr (UInt32.toNat_inj.mp hlen)
    rw [decode_get hn (by rw [htype]; cases full <;> simp [Command.type]),if_neg h3,hlen]
    exact ⟨rfl,htype,hid⟩
  | set isDefault id value fits => exact decoded_set h
  | listSome full ids fits =>
    obtain ⟨hlen,_,hcount,_⟩ := (holds_listSome_iff fits).mp h
    have hfew := (he.ids (by rw [htype]; cases full <;> simp [Command.type]) (by omega)
      (by omega)).2
    exact decoded_listSome h (by omega)

/-- A protocol error is no positive count. -/
theorem not_accepted (cmd : UserSettingsProtocolCommand) (reads writes : List ℕ) :
    ¬0<(Decoded.mk (-eProto) cmd reads writes).ret := by
  change ¬(0 : ℤ) < -71
  decide

/-- An accepted list has its count in the buffer, and it agrees with the length
up to an odd byte. -/
theorem decodeIds_positive_iff (buffer : Mem) (hn : len≠0) (cmd : UserSettingsProtocolCommand) :
    0<(decodeIds buffer len cmd).ret ↔
      2 ≤ len.toNat ∧ (len.toNat-2)/2=(buffer 1).toNat := by
  have hiff := numIds_eq_iff (len-1-1) (buffer 1)
  have hpos : len.toNat≠0 := fun h => hn (UInt32.toNat_inj.mp h)
  have hbyte := (buffer 1).toNat_lt
  unfold decodeIds
  dsimp only
  by_cases hsame : (len-1-1)/2=UInt32.ofNat (buffer 1).toNat
  · rw [if_neg (not_not.mpr hsame)]
    have hhalf := hiff.mp hsame
    have h2 : 2 ≤ len.toNat := by
      by_contra hsmall
      have hone : len=1 := UInt32.toNat_inj.mp (by change len.toNat=1; omega)
      rw [hone] at hhalf
      change 4294967295/2=_ at hhalf
      omega
    rw [idBufferLen_toNat h2] at hhalf
    exact ⟨fun _ => ⟨h2,hhalf⟩,fun _ => by dsimp only; omega⟩
  · rw [if_pos hsame]
    refine ⟨fun h => ?_,fun h => ?_⟩
    · exact absurd h (not_accepted _ _ _)
    · rw [←idBufferLen_toNat h.1] at h
      exact absurd (hiff.mpr h.2) hsame

/-- A single type byte is a command without parameters. -/
theorem holds_plain {byte : UInt8} (h0 : buffer 0=byte) (hone : len.toNat=1)
    (hbytes : command.bytes=[byte]) : Holds buffer len command := by
  unfold Holds
  rw [hbytes,hone,←h0]
  rfl

/-- Three bytes that are accepted are a command with an identifier. -/
theorem holds_get (full : Bool) {cmd accepted : UserSettingsProtocolCommand}
    (hpos : 0<(if len≠3 then (⟨-eProto,cmd,[0],[]⟩ : Decoded) else ⟨3,accepted,[0,1,2],[]⟩).ret)
    (h0 : buffer 0=if full then 2 else 1) : ∃ command,Holds buffer len command := by
  by_cases h3 : len=3
  · exact ⟨.get full (word16 buffer 1),holds_get_iff.mpr ⟨congrArg UInt32.toNat h3,h0,rfl⟩⟩
  · rw [if_pos h3] at hpos
    exact absurd hpos (not_accepted _ _ _)

/-- An accepted value of the announced length is a command with a value. -/
theorem holds_set (isDefault : Bool) {cmd : UserSettingsProtocolCommand}
    (hpos : 0<(decodeValue buffer len cmd).ret)
    (hlen : 5 ≤ len.toNat → len.toNat=4+(buffer 3).toNat)
    (h0 : buffer 0=if isDefault then 6 else 5) : ∃ command,Holds buffer len command := by
  unfold decodeValue at hpos
  by_cases h5 : len<5
  · rw [if_pos h5] at hpos
    exact absurd hpos (not_accepted _ _ _)
  · rw [UInt32.lt_iff_toNat_lt] at h5
    change ¬len.toNat<5 at h5
    have hexact := hlen (by omega)
    have hbound := (buffer 3).toNat_lt
    have hvalue : (bytesAt (behind buffer 4) (buffer 3).toNat).length=(buffer 3).toNat :=
      length_bytesAt _ _
    have hheld : bytesAt buffer len.toNat=setCommand isDefault (word16 buffer 1)
        (bytesAt (behind buffer 4) (buffer 3).toNat) := by
      rw [holds_set_iff (by omega),hvalue]
      exact ⟨hexact,h0,rfl,rfl,rfl⟩
    exact ⟨.set isDefault _ _ (by omega),hheld⟩

/-- An accepted list of the announced length is a command with identifiers. -/
theorem holds_listSome (full : Bool)
    (hexact : len.toNat=2+2*(buffer 1).toNat ∧ (buffer 1).toNat≤127)
    (h0 : buffer 0=if full then 9 else 8) : ∃ command,Holds buffer len command := by
  have hcount : (words (behind buffer 2) (buffer 1).toNat).length=(buffer 1).toNat := by
    unfold words
    rw [List.length_map,List.length_range]
  have hheld : bytesAt buffer len.toNat=listSomeCommand full
      (words (behind buffer 2) (buffer 1).toNat) := by
    rw [holds_listSome_iff (by omega),hcount]
    exact ⟨hexact.1,h0,rfl,rfl⟩
  exact ⟨.listSome full _ (by omega),hheld⟩

/-- Where the lengths are right, what is accepted is a command. -/
theorem holds_of_positive (he : ExactLengths buffer len)
    (hpos : 0<(userSettingsProtocolBinaryDecodeCommand buffer len).ret) :
    ∃ command,Holds buffer len command := by
  have hn : len≠0 := by
    rintro rfl
    unfold userSettingsProtocolBinaryDecodeCommand at hpos
    rw [if_pos rfl] at hpos
    exact absurd hpos (not_accepted _ _ _)
  cases ht : commandType? (buffer 0) with
  | none =>
    rw [decode_unknown hn ht] at hpos
    change (0 : ℤ) < -134 at hpos
    omega
  | some type =>
    have hbyte := commandType?_eq_some ht
    cases type with
    | list => exact ⟨.list false,holds_plain hbyte (he.plain (.inl ht) hn) rfl⟩
    | listFull => exact ⟨.list true,holds_plain hbyte (he.plain (.inr (.inl ht)) hn) rfl⟩
    | restore => exact ⟨.restore,holds_plain hbyte (he.plain (.inr (.inr ht)) hn) rfl⟩
    | get =>
      rw [decode_get hn (.inl ht)] at hpos
      exact holds_get false hpos hbyte
    | getFull =>
      rw [decode_get hn (.inr ht)] at hpos
      exact holds_get true hpos hbyte
    | set =>
      rw [decode_set hn (.inl ht)] at hpos
      exact holds_set false hpos (he.value (.inl ht)) hbyte
    | setDefault =>
      rw [decode_set hn (.inr ht)] at hpos
      exact holds_set true hpos (he.value (.inr ht)) hbyte
    | listSome =>
      rw [decode_ids hn (.inl ht),decodeIds_positive_iff buffer hn] at hpos
      exact holds_listSome false (he.ids (.inl ht) hpos.1 hpos.2) hbyte
    | listSomeFull =>
      rw [decode_ids hn (.inr ht),decodeIds_positive_iff buffer hn] at hpos
      exact holds_listSome true (he.ids (.inr ht) hpos.1 hpos.2) hbyte

/-- Where buffers are decoded as documented, the lengths are right. -/
theorem exactLengths_of_decodes (h : DecodesAsDocumented buffer len) :
    ExactLengths buffer len := by
  have hcount : 0<(userSettingsProtocolBinaryDecodeCommand buffer len).ret →
      ∃ command,Holds buffer len command ∧
        (userSettingsProtocolBinaryDecodeCommand buffer len).ret=len.toNat ∧
        command.DecodedAs (userSettingsProtocolBinaryDecodeCommand buffer len).command := by
    intro hpos
    obtain ⟨command,hc⟩ := h.positive.mp hpos
    exact ⟨command,hc,h.decoded command hc⟩
  refine ⟨fun ht hn => ?_,fun ht h5 => ?_,fun ht h2 hhalf => ?_⟩
  · rw [decode_plain hn ht] at hcount
    obtain ⟨_,_,hret,_⟩ := hcount one_pos
    dsimp only at hret
    omega
  · have hn : len≠0 := by
      rintro rfl
      exact absurd h5 (by decide)
    have hlong : ¬len<5 := by
      rw [UInt32.lt_iff_toNat_lt]
      exact not_lt.mpr h5
    rw [decode_set hn ht] at hcount
    unfold decodeValue at hcount
    rw [if_neg hlong] at hcount
    dsimp only at hcount
    obtain ⟨_,_,hret,_⟩ := hcount (by omega)
    omega
  · have hn : len≠0 := by
      rintro rfl
      exact absurd h2 (by decide)
    have hpos := (decodeIds_positive_iff buffer hn (typed buffer)).mpr ⟨h2,hhalf⟩
    rw [←decode_ids hn ht] at hpos
    obtain ⟨command,hc,_,htype,hdecoded⟩ := hcount hpos
    have hkind := hc.type.2
    cases command with
    | listSome full ids fits =>
      obtain ⟨hlen,_,hids,_⟩ := (holds_listSome_iff fits).mp hc
      have hbyte := (userSettingsProtocolBinaryDecodeCommand buffer len).command.valueLen.toNat_lt
      have htwice := hdecoded.1
      constructor <;> omega
    | list full | get full id =>
      rw [hkind] at ht
      cases full <;> simp [Command.type] at ht
    | set isDefault id value fits =>
      rw [hkind] at ht
      cases isDefault <;> simp [Command.type] at ht
    | restore =>
      rw [hkind] at ht
      simp [Command.type] at ht

/-- For every buffer and every length: the decoder accepts exactly the
documented commands, counts their bytes and decodes them as they were written,
and refuses everything else with the documented code, if and only if nothing
stands behind a command without parameters, as many value bytes as announced
stand behind the length byte, and a list that is accepted has no odd byte and
at most 127 identifiers. -/
theorem decodes_as_documented_iff (buffer : Mem) (len : UInt32) :
    DecodesAsDocumented buffer len ↔ ExactLengths buffer len := by
  refine ⟨exactLengths_of_decodes,fun he => ?_⟩
  have hpositive : 0<(userSettingsProtocolBinaryDecodeCommand buffer len).ret ↔
      ∃ command,Holds buffer len command := by
    refine ⟨holds_of_positive he,?_⟩
    rintro ⟨command,hc⟩
    have hn : len.toNat≠0 := fun hz => hc.type.1 (UInt32.toNat_inj.mp hz)
    rw [(decoded_of_holds he hc).1]
    omega
  exact ⟨hpositive,fun _ hc => decoded_of_holds he hc,
    fun hnone => ret_of_not_positive fun hpos => hnone (hpositive.mp hpos)⟩

/-- A LIST command with a byte behind it is accepted with a count of one. -/
theorem list_with_tail_accepted :
    ¬∀ (buffer : Mem) (len : UInt32),DecodesAsDocumented buffer len := by
  intro h
  have hcase := h (memOf [3,0]) 2
  have hret : (userSettingsProtocolBinaryDecodeCommand (memOf [3,0]) 2).ret=1 := rfl
  obtain ⟨command,hc⟩ := hcase.positive.mp (by rw [hret]; exact one_pos)
  have hlen := (hcase.decoded command hc).1
  rw [hret] at hlen
  exact absurd hlen (by decide)

end UserSettings.Decoding
