import Vinput.InterleavedRuns
import Vinput.RecordFiles

/-!
# Updates of the record files by several processes

Each call reads a whole file, changes the records of one id or prunes them,
and writes the whole file back. No lock spans the two accesses; reading and
replacing a file is one step each. A call finishes with its last access to
the file. The configuration in force is changed by others at any time. A text
is what the reader makes of it, which is the tree that was written unless a
string of it has a character without an escape.
-/

namespace Vinput.RecordUpdates

open InterleavedRuns JsonTree CoreConfigTypes RecordFiles

section Records

/-- The files. -/
inductive Store where
  | manifest
  | modelCache
deriving DecidableEq

/-- A record of either file. -/
inductive Record where
  | installed (record : InstalledRecord)
  | models (entry : Json)

/-- Records by id. -/
abbrev RecordMap := String → Option Record

/-- The records a file holds. -/
def recordIn : Store → FileText → RecordMap
  | .manifest,text => fun id => ((load text).lookup id).map .installed
  | .modelCache,text => fun id =>
    ((cacheProviders (readCacheFile text).2).bind fun providers => providers.lookup id).map .models

/-- What a call does to the records. -/
inductive Change where
  | put (id : String) (record : Record)
  | drop (id : String)
  /-- Only the configured services are kept. -/
  | prune (active : List String)

/-- The records after a change. -/
def Change.apply : Change → RecordMap → RecordMap
  | .put id record,records => Function.update records id (some record)
  | .drop id,records => Function.update records id none
  | .prune active,records => fun id => if id∈active then records id else none

end Records

section Calls

/-- The calls that access a file. A script has been put in place with its
digest before the manifest is touched. -/
inductive Call where
  | downloadScript (kind : Kind) (id version sha256 : String)
  | unregisterInstalledScript (id : String)
  | saveProviderModels (id : String) (models : List String)
  | removeProviderModels (id : String)
  | loadActiveModels (config : CoreConfig)

/-- The file a call accesses. -/
def Call.store : Call → Store
  | .downloadScript .. => .manifest
  | .unregisterInstalledScript _ => .manifest
  | .saveProviderModels .. => .modelCache
  | .removeProviderModels _ => .modelCache
  | .loadActiveModels _ => .modelCache

/-- The id a call names. -/
def Call.named : Call → Option String
  | .downloadScript _ id _ _ => some id
  | .unregisterInstalledScript id => some id
  | .saveProviderModels id _ => some id
  | .removeProviderModels id => some id
  | .loadActiveModels _ => none

/-- How a call ends. -/
inductive Result where
  | ok
  /-- It fails, with a text when the call has one. -/
  | failed (error : String)
  | models (entries : List ModelEntry)

/-- What a call writes after it has read a file, with the change this is
meant to be. -/
def Call.rewrite (now : ℤ) (text : FileText) : Call → Option (Change×Json)
  | .downloadScript kind id version sha256 =>
    let record := installedRecord kind version sha256 now
    some (.put id (.installed record),save ((load text).insert id record))
  | .unregisterInstalledScript id =>
    let records := load text
    if id∈records then some (.drop id,save (records.erase id)) else none
  | .saveProviderModels id models =>
    -- Whether the cache was read does not matter here.
    let entry := modelsEntry models now
    some (.put id (.models entry),.object (putModels id entry (readCacheFile text).2))
  | .removeProviderModels id =>
    let cache := readCacheFile text
    if cache.1 then (eraseModels id cache.2).map fun left => (.drop id,.object left) else none
  | .loadActiveModels config =>
    let active := activeProviderIds config
    let cache := readCacheFile text
    if cache.1 then
      (pruneModels active cache.2).map fun left => (.prune active,.object left)
    else none

/-- The result of a call, from what it has of the file and why the file was
not written. -/
def Call.result (text : FileText) (error : Option String) : Call → Result
  | .downloadScript .. => .ok
  | .unregisterInstalledScript _ => if error.isSome then .failed "" else .ok
  | .saveProviderModels .. => error.elim .ok .failed
  | .removeProviderModels _ => error.elim .ok .failed
  | .loadActiveModels config => .models (activeModels config (readCacheFile text).2)

/-- What happens at a thread outside any call. -/
inductive Event where
  | call (call : Call)
  /-- Another configuration comes into force. -/
  | configure (config : CoreConfig)

/-- What the environment decides in one step. -/
structure Oracle where
  /-- Next event of a thread outside any call. -/
  event : Event := .call (.loadActiveModels {})
  /-- Why the script cannot be put in place. -/
  downloadError : Option String := none
  /-- The file cannot be read. -/
  readFails : Bool := false
  /-- Why the file cannot be serialized or written. -/
  writeError : Option String := none
  /-- What the reader makes of a written text that it may misread. -/
  misread : Option Json := none
  /-- The time in seconds. -/
  now : ℤ := 0

/-- The files and the configuration in force. -/
structure Shared where
  files : Store → FileText := fun _ => none
  config : CoreConfig := {}

/-- Program counter of one thread. -/
inductive Pc where
  /-- Outside any call, with the result of the last one. -/
  | ready (last : Option Result)
  /-- Before the file is read. -/
  | load (call : Call)
  /-- Before the file is replaced. -/
  | save (call : Call) (change : Change) (content : Json)

/-- A call returns. -/
def returns (result : Result) : Pc := .ready (some result)

/-- A call begins; some end before they access a file. -/
def begin (oracle : Oracle) : Call → Pc
  | .downloadScript kind id version sha256 =>
    match oracle.downloadError with
    | some error => returns (.failed error)
    | none => .load (.downloadScript kind id version sha256)
  | .unregisterInstalledScript id => .load (.unregisterInstalledScript id)
  | .saveProviderModels id models =>
    if id="" then returns (.failed "Provider ID cannot be empty")
    else .load (.saveProviderModels id models)
  | .removeProviderModels id =>
    if id="" then returns .ok else .load (.removeProviderModels id)
  | .loadActiveModels config => .load (.loadActiveModels config)

/-- What a call gets of its file. -/
def readTextFile (oracle : Oracle) (shared : Shared) (call : Call) : FileText :=
  if oracle.readFails then none else shared.files call.store

/-- A call after it has read its file. -/
def afterRead (now : ℤ) (text : FileText) (call : Call) : Pc :=
  match call.rewrite now text with
  | some (change,content) => .save call change content
  | none => returns (call.result text none)

/-- What the reader makes of the text that is written of a tree. -/
def written (oracle : Oracle) (content : Json) : Option Json :=
  if content.isPlain then some content else oracle.misread

/-- Replace a file. -/
def writeFile (oracle : Oracle) (store : Store) (content : Json) (shared : Shared) : Shared :=
  {shared with files := Function.update shared.files store (some (written oracle content))}

/-- One step of one thread. -/
def next (oracle : Oracle) (shared : Shared) : Pc → Shared×Pc
  | .ready _ =>
    match oracle.event with
    | .call call => (shared,begin oracle call)
    | .configure config => ({shared with config := config},.ready none)
  | .load call => (shared,afterRead oracle.now (readTextFile oracle shared call) call)
  | .save call _ content =>
    match oracle.writeError with
    | some error => (shared,returns (call.result (some (some content)) (some error)))
    | none =>
      (writeFile oracle call.store content shared,returns (call.result (some (some content)) none))

/-- All processes over the files. -/
abbrev System := Pool Shared Pc

/-- One step of the whole system. -/
abbrev machine : System → ℕ×Oracle → System := Pool.step next

/-- No call is in flight. -/
def startup (shared : Shared) : System := ⟨shared,fun _ => .ready none⟩

end Calls

section Changes

@[simp] theorem put_apply_self (id : String) (record : Record) (records : RecordMap) :
    (Change.put id record).apply records id=some record := by
  dsimp only [Change.apply]
  rw [Function.update_self]

theorem put_apply_of_ne {id other : String} (hother : other≠id) (record : Record)
    (records : RecordMap) : (Change.put id record).apply records other=records other := by
  dsimp only [Change.apply]
  rw [Function.update_of_ne hother]

/-- A record that is dropped is gone. -/
@[simp] theorem drop_apply_self (id : String) (records : RecordMap) :
    (Change.drop id).apply records id=none := by
  dsimp only [Change.apply]
  rw [Function.update_self]

theorem drop_apply_of_ne {id other : String} (hother : other≠id) (records : RecordMap) :
    (Change.drop id).apply records other=records other := by
  dsimp only [Change.apply]
  rw [Function.update_of_ne hother]

/-- All times in a manifest, and the time now, are exact as doubles. -/
def TimesExact (now : ℤ) (text : FileText) : Prop :=
  (UInt64.ofInt now).toNat<2^53 ∧
    ∀ id record, (load text).lookup id=some record → record.installedAt.toNat<2^53

/-- A manifest is written with its records. -/
theorem recordIn_save {records : Records}
    (exact : ∀ id record, records.lookup id=some record → record.installedAt.toNat<2^53)
    (id : String) :
    recordIn .manifest (some (some (save records))) id=(records.lookup id).map .installed := by
  dsimp only [recordIn]
  rw [lookup_load_save (exact id)]

/-- The cache is written with its services. -/
theorem recordIn_setProviders (cache providers : Members) (id : String) :
    recordIn .modelCache (some (some (.object (setProviders cache providers)))) id=
      (providers.lookup id).map .models := by
  dsimp only [recordIn,readCacheFile]
  rw [cacheProviders_setProviders,Option.bind_some]

/-- The records of a cache with services. -/
theorem recordIn_providers {text : FileText} {providers : Members}
    (h : cacheProviders (readCacheFile text).2=some providers) (id : String) :
    recordIn .modelCache text id=(providers.lookup id).map .models := by
  dsimp only [recordIn]
  rw [h,Option.bind_some]

/-- Erasing a service from the cache drops its record. -/
theorem recordIn_eraseModels {text : FileText} {id : String} {left : Members}
    (h : eraseModels id (readCacheFile text).2=some left) :
    recordIn .modelCache (some (some (.object left)))=
      (Change.drop id).apply (recordIn .modelCache text) := by
  unfold eraseModels at h
  split at h
  · rename_i providers hproviders
    split at h
    · cases h
      funext other
      rw [recordIn_setProviders]
      by_cases hother : other=id
      · rw [hother,ConfigMigrationRules.lookup_eraseMember_self,drop_apply_self,Option.map_none]
      · rw [ConfigMigrationRules.lookup_eraseMember_of_ne hother,drop_apply_of_ne hother,
          recordIn_providers hproviders]
    · cases h
  · cases h

/-- Pruning the cache keeps the records of the configured services. -/
theorem recordIn_pruneModels {text : FileText} {active : List String} {left : Members}
    (h : pruneModels active (readCacheFile text).2=some left) :
    recordIn .modelCache (some (some (.object left)))=
      (Change.prune active).apply (recordIn .modelCache text) := by
  unfold pruneModels at h
  split at h
  · rename_i providers hproviders
    dsimp only at h
    split at h
    · cases h
    · cases h
      funext id
      rw [recordIn_setProviders,lookup_erase_orphaned]
      dsimp only [Change.apply]
      split
      · rw [recordIn_providers hproviders]
      · rfl
  · cases h

/-- Saving the models of a service puts its record. -/
theorem recordIn_putModels (text : FileText) (id : String) (entry : Json) :
    recordIn .modelCache (some (some (.object (putModels id entry (readCacheFile text).2))))=
      (Change.put id (.models entry)).apply (recordIn .modelCache text) := by
  funext other
  unfold putModels
  rw [recordIn_setProviders]
  by_cases hother : other=id
  · rw [hother,ConfigMigrationRules.lookup_setMember_self,put_apply_self,Option.map_some]
  · rw [ConfigMigrationRules.lookup_setMember_of_ne hother,put_apply_of_ne hother]
    dsimp only [recordIn]
    cases cacheProviders (readCacheFile text).2 <;> rfl

/-- A script is recorded in a manifest. -/
theorem recordIn_insert {now : ℤ} {text : FileText} (exact : TimesExact now text) (kind : Kind)
    (id version sha256 : String) :
    recordIn .manifest (some (some (save ((load text).insert id
      (installedRecord kind version sha256 now)))))=
      (Change.put id (.installed (installedRecord kind version sha256 now))).apply
        (recordIn .manifest text) := by
  funext other
  rw [recordIn_save]
  · by_cases hother : other=id
    · rw [hother,AList.lookup_insert,put_apply_self,Option.map_some]
    · rw [AList.lookup_insert_ne hother,put_apply_of_ne hother]
      rfl
  · intro other record hrecord
    by_cases hother : other=id
    · rw [hother,AList.lookup_insert] at hrecord
      cases hrecord
      exact exact.1
    · rw [AList.lookup_insert_ne hother] at hrecord
      exact exact.2 other record hrecord

/-- A script is dropped from a manifest. -/
theorem recordIn_erase {now : ℤ} {text : FileText} (exact : TimesExact now text) (id : String) :
    recordIn .manifest (some (some (save ((load text).erase id))))=
      (Change.drop id).apply (recordIn .manifest text) := by
  funext other
  rw [recordIn_save]
  · by_cases hother : other=id
    · rw [hother,AList.lookup_erase,drop_apply_self,Option.map_none]
    · rw [AList.lookup_erase_ne hother,drop_apply_of_ne hother]
      rfl
  · intro other record hrecord
    by_cases hother : other=id
    · rw [hother,AList.lookup_erase] at hrecord
      cases hrecord
    · rw [AList.lookup_erase_ne hother] at hrecord
      exact exact.2 other record hrecord

/-- What a call writes is its change of the records it has read. -/
theorem rewrite_spec {now : ℤ} {text : FileText} {call : Call} {change : Change} {content : Json}
    (exact : call.store=.manifest → TimesExact now text)
    (h : call.rewrite now text=some (change,content)) :
    recordIn call.store (some (some content))=change.apply (recordIn call.store text) := by
  cases call with
  | downloadScript kind id version sha256 =>
    cases h
    exact recordIn_insert (exact rfl) kind id version sha256
  | unregisterInstalledScript id =>
    dsimp only [Call.rewrite] at h
    split at h
    · cases h
      exact recordIn_erase (exact rfl) id
    · cases h
  | saveProviderModels id models =>
    cases h
    exact recordIn_putModels text id (modelsEntry models now)
  | removeProviderModels id =>
    dsimp only [Call.rewrite] at h
    split at h
    · obtain ⟨left,hleft,hsame⟩ := Option.map_eq_some_iff.mp h
      cases hsame
      exact recordIn_eraseModels hleft
    · cases h
  | loadActiveModels config =>
    dsimp only [Call.rewrite] at h
    split at h
    · obtain ⟨left,hleft,hsame⟩ := Option.map_eq_some_iff.mp h
      cases hsame
      exact recordIn_pruneModels hleft
    · cases h

end Changes

section History

/-- What is observed of a run. -/
structure History where
  /-- What the last change of a record was: the record a call wrote, or its
  removal. -/
  last : Store → String → Option (Option Record) := fun _ _ => none
  /-- Ids that some call named. -/
  named : Store → String → Bool := fun _ _ => false
  /-- Services configured at some time since a thread began its call. -/
  inForce : ℕ → List String := fun _ => []

/-- A call has written its change. Pruning removes a record only when its
service was never configured during the call. -/
def Change.note (inForce : List String) (before after : RecordMap)
    (last : String → Option (Option Record)) : Change → String → Option (Option Record)
  | .put id record => Function.update last id (some (some record))
  | .drop id => Function.update last id (some none)
  | .prune _ => fun id =>
    if id∉inForce ∧ (before id).isSome ∧ (after id).isNone then some none else last id

/-- Observe one step. -/
def observe (history : History) (system : System) (label : ℕ×Oracle) : History :=
  match system.pcs label.1 with
  | .ready _ =>
    match label.2.event with
    | .call call =>
      {history with
        named := fun store id =>
          history.named store id || decide (store=call.store ∧ call.named=some id)
        inForce := Function.update history.inForce label.1
          (activeProviderIds system.shared.config)}
    | .configure config =>
      {history with inForce := fun thread => activeProviderIds config++history.inForce thread}
  | .load _ => history
  | .save call change content =>
    if label.2.writeError.isNone then
      {history with
        last := Function.update history.last call.store
          (change.note (history.inForce label.1)
            (recordIn call.store (system.shared.files call.store))
            (recordIn call.store (some (some content))) (history.last call.store))}
    else history

/-- One record is what its last change made it, or what it was at the start
when no call named it. -/
def Kept (start records : RecordMap) (last : Option (Option Record)) (named : Bool) (id : String) :
    Prop :=
  match last with
  | some (some record) => records id=some record
  | some none => True
  | none => named=false → records id=start id

/-- The thread is in no call. -/
def Pc.isReady : Pc → Bool
  | .ready _ => true
  | _ => false

/-- No update is lost: once all calls have finished, every record that was
written is there unless a later change replaced or removed it, and every
record no call named is unchanged. -/
def UpdatesKept (start : Shared) (pair : System×History) : Prop :=
  (∀ thread, (pair.1.pcs thread).isReady=true) → ∀ store id,
    Kept (recordIn store (start.files store)) (recordIn store (pair.1.shared.files store))
      (pair.2.last store id) (pair.2.named store id) id

/-- The system with its history. -/
abbrev watched : System×History → ℕ×Oracle → System×History := observed machine observe

end History

end Vinput.RecordUpdates
