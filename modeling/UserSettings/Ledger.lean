import UserSettings.Machine
import UserSettings.Queries
import UserSettings.Validity
import UserSettings.WriteThrough

/-!
# The ledger: what the store is for

The store in its own terms: some settings with fixed rules, and for each of
them three cells that may have a content, in a live and in a durable copy. A
call is refused with a code or comes to a list of writes; questions are
answered from the live copy. There are no buffers, lengths, entries or flags
here. Contents are written through to the durable copy; a value of no bytes
empties the durable cell and leaves the live one alone.
-/

namespace UserSettings.Ledger

open Bytes Settings Storage Store Cells Validity WriteThrough Queries

/-- What is fixed about a store. -/
structure Rules where
  /-- The settings in registration order. -/
  regs : List Registration
  /-- Whether default values may be overwritten. -/
  overwrite : Bool

/-- The setting that a caller names. -/
def Rules.find (rules : Rules) : Target → Option Registration
  | .key key => rules.regs.find? fun r => decide (key=r.key)
  | .id id => rules.regs.find? fun r => decide (id=r.id)

/-- The two copies of all cells. -/
abbrev Contents := Twin Cell (List UInt8)

/-- A call on one setting. -/
inductive Call where
  /-- Set the value. -/
  | set (bytes : List UInt8)
  /-- Set the default value. -/
  | setDefault (bytes : List UInt8)
  /-- Set the value to the default value, if there is a value. -/
  | restoreDefault
  /-- Mark as changed. -/
  | setChanged
  /-- Clear the mark. -/
  | clearChanged

/-- A refusal with its code, or the writes that are to be made. -/
abbrev Plan := Except ℤ (List (Write Cell (List UInt8)))

/-- The content of a cell that holds some bytes; no bytes are no content. -/
def filled (bytes : List UInt8) : Option (List UInt8) := if bytes=[] then none else some bytes

/-- The write of some bytes. -/
def writeOf (cell : Cell) (bytes : List UInt8) : Write Cell (List UInt8) :=
  if bytes=[] then .drop cell else .put cell (some bytes)

/-- Mark a setting or clear its mark, if that changes anything. -/
def markPlan (live : Copy) (key : CString) (flag : Bool) : List (Write Cell (List UInt8)) :=
  if live (.changed,key)=flagContent flag then [] else [.put (.changed,key) (flagContent flag)]

/-- Set a value: it must fit and be accepted, unless it is there already. -/
def setPlan (r : Registration) (live : Copy) (bytes : List UInt8) : Plan :=
  if r.size<bytes.length then .error (-eNoMem)
  else if live (.value,r.key)=filled bytes then .ok []
  else if accepts r bytes=false then .error (-eInval)
  else .ok (writeOf (.value,r.key) bytes::markPlan live r.key true)

/-- Set a default value: likewise, and it may be written once only unless
overwriting is allowed. -/
def setDefaultPlan (overwrite : Bool) (r : Registration) (live : Copy) (bytes : List UInt8) :
    Plan :=
  if live (.default,r.key)=filled bytes then .ok []
  else if overwrite=false ∧ (live (.default,r.key)).isSome then .error (-eAlready)
  else if r.size<bytes.length then .error (-eNoMem)
  else if accepts r bytes=false then .error (-eInval)
  else .ok [writeOf (.default,r.key) bytes]

/-- What a call comes to. -/
def Call.plan (overwrite : Bool) (r : Registration) (live : Copy) : Call → Plan
  | .set bytes => setPlan r live bytes
  | .setDefault bytes => setDefaultPlan overwrite r live bytes
  | .restoreDefault =>
    if (live (.value,r.key)).isSome then setPlan r live ((live (.default,r.key)).getD [])
    else .ok []
  | .setChanged => .ok (markPlan live r.key true)
  | .clearChanged => .ok (markPlan live r.key false)

/-- Carry out a plan: the code of a refusal, zero when all writes were made,
an input or output error when the medium refused one. -/
def perform (works : ℕ → Bool) (t : Contents) : Plan → Contents×ℤ
  | .error code => (t,code)
  | .ok writes =>
    let done := exec works t writes
    (done.1,if done.2 then 0 else -eIo)

/-- A call on a setting. -/
def callOn (works : ℕ → Bool) (overwrite : Bool) (t : Contents) (r : Registration) (call : Call) :
    Contents×ℤ := perform works t (call.plan overwrite r t.live)

/-- The same call on all settings, in registration order; refusals are ignored. -/
def callOnAll (works : ℕ → Bool) (rules : Rules) (t : Contents) (call : Call) : Contents :=
  rules.regs.foldl (fun t r => (callOn works rules.overwrite t r call).1) t

/-- The value of a setting, else its default value. -/
def current (live : Copy) (r : Registration) : Option (List UInt8) :=
  (live (.value,r.key)).or (live (.default,r.key))

/-- The marked settings in registration order. -/
def marked (rules : Rules) (live : Copy) : List Registration :=
  rules.regs.filter fun r => (live (.changed,r.key)).isSome

/-- A question about a setting. -/
def about (rules : Rules) (t : Contents) (target : Target) (answer : Registration → Answer) :
    Option (Contents×Answer) :=
  (rules.find target).map fun r => (t,answer r)

/-- A call on a setting that reports its code. -/
def reporting (works : ℕ → Bool) (rules : Rules) (t : Contents) (target : Target) (call : Call) :
    Option (Contents×Answer) :=
  (rules.find target).map fun r =>
    let done := callOn works rules.overwrite t r call
    (done.1,.code done.2)

/-- A call on a setting whose code is not reported. -/
def unreporting (works : ℕ → Bool) (rules : Rules) (t : Contents) (target : Target)
    (call : Call) : Option (Contents×Answer) :=
  (rules.find target).map fun r => ((callOn works rules.overwrite t r call).1,.code 0)

/-- The ledger as an application sees it; a request for a setting that does
not exist stops it. -/
def ledger (works : ℕ → Bool) (rules : Rules) (t : Contents) :
    Request (List UInt8) → Option (Contents×Answer)
  | .set target bytes => reporting works rules t target (.set bytes)
  | .setDefault target bytes => reporting works rules t target (.setDefault bytes)
  | .restoreDefault target => unreporting works rules t target .restoreDefault
  | .restoreDefaults => some (callOnAll works rules t .restoreDefault,.code 0)
  | .setChanged target => unreporting works rules t target .setChanged
  | .clearChangedOne target => unreporting works rules t target .clearChanged
  | .clearChanged => some (callOnAll works rules t .clearChanged,.code 0)
  | .get target => about rules t target fun r => .bytes (current t.live r)
  | .getDefault target => about rules t target fun r => .bytes (t.live (.default,r.key))
  | .isSet target => about rules t target fun r => .truth (t.live (.value,r.key)).isSome
  | .hasDefault target => about rules t target fun r => .truth (t.live (.default,r.key)).isSome
  | .getMaxLen target => about rules t target fun r => .length r.size
  | .getType target => about rules t target fun r => .type r.type
  | .validate target bytes => about rules t target fun r => .truth (accepts r bytes)
  | .exists target => some (t,.truth (rules.find target).isSome)
  | .anyChanged => some (t,.truth !(marked rules t.live).isEmpty)
  | .nextChanged times => some (t,.settings ((List.range times).map fun i =>
      ((marked rules t.live).map fun r => (r.key,r.id))[i]?))
  | .reboot => some (restart t,.started)

end UserSettings.Ledger
