import Mathlib.Data.List.AList
import Mathlib.Data.List.Sort
import Vinput.ConfigMigrationRules
import Vinput.CoreConfigTypes

/-!
# The installed manifest and the cache of provider models

Two JSON files hold records by id: the scripts that have been installed and
the models that each language model service offers. A file is read, changed
and written as a whole. What is read of a missing, unreadable or malformed
file is an empty set of records.
-/

namespace Vinput.RecordFiles

open JsonTree CoreConfigTypes ConfigMigration ConfigMigrationRules

/-- A file: absent, or a text that may be no JSON. -/
abbrev FileText := Option (Option Json)

/-- The members of an object. -/
abbrev Members := List (String×Json)

section Manifest

/-- An installed script. Its id is its key in the manifest. -/
structure InstalledRecord where
  /-- Provider or adapter. -/
  kind : String := ""
  /-- Version that was installed. -/
  version : String := ""
  /-- Digest of the script. -/
  sha256 : String := ""
  /-- Time of the installation, in seconds. -/
  installedAt : UInt64 := 0
deriving DecidableEq

/-- The records of a manifest. -/
abbrev Records := AList fun _ : String => InstalledRecord

/-- One item of the manifest. -/
def readItem (item : Json) : InstalledRecord :=
  ⟨textMember "kind" item,textMember "version" item,textMember "sha256" item,
    UInt64.ofInt (int64Member "installed_at" item)⟩

/-- Items that are objects become records, unless their id is taken. -/
def emplaceItems : Members → Records → Records
  | [],records => records
  | (id,item)::rest,records =>
    emplaceItems rest
      (if item.isObject ∧ id∉records then records.insert id (readItem item) else records)

/-- Read the manifest. -/
def load : FileText → Records
  | some (some root) =>
    match root.find "resources" with
    | some (.object items) => emplaceItems items ∅
    | _ => ∅
  | _ => ∅

/-- One record as it is written. -/
def writeItem (record : InstalledRecord) : Json :=
  .object [("kind",.text record.kind),("version",.text record.version),
    ("sha256",.text record.sha256),("installed_at",.number (toDouble record.installedAt.toNat))]

/-- The manifest as it is written. -/
def save (records : Records) : Json :=
  .object [("version",.number 1),
    ("resources",.object (records.entries.map fun entry => (entry.1,writeItem entry.2)))]

/-- The kind of a script. -/
inductive Kind where
  | asrProvider
  | llmAdapter
deriving DecidableEq

/-- A kind in the manifest. -/
def Kind.text : Kind → String
  | .asrProvider => "provider"
  | .llmAdapter => "adapter"

/-- The record of a script installed now. -/
def installedRecord (kind : Kind) (version sha256 : String) (now : ℤ) : InstalledRecord :=
  ⟨kind.text,version,sha256,UInt64.ofInt now⟩

end Manifest

section ModelCache

/-- Read the cache. The flag says that it was read. -/
def readCacheFile : FileText → Bool×Members
  | some (some (.object cache)) => (true,cache)
  | _ => (false,[])

/-- The services of a cache, when they are an object. -/
def cacheProviders (cache : Members) : Option Members :=
  match cache.lookup "providers" with
  | some (.object providers) => some providers
  | _ => none

/-- A cache with other services. -/
def setProviders (cache providers : Members) : Members :=
  setMember "providers" (.object providers) cache

/-- The models of a service as they are written. -/
def modelsEntry (models : List String) (now : ℤ) : Json :=
  .object [("models",.array (models.map .text)),("updated_at",.number now)]

/-- The cache with the models of a service. The services are created when
there are none. -/
def putModels (id : String) (entry : Json) (cache : Members) : Members :=
  setProviders cache (setMember id entry ((cacheProviders cache).getD []))

/-- The cache without a service, when it has it. -/
def eraseModels (id : String) (cache : Members) : Option Members :=
  match cacheProviders cache with
  | some providers =>
    if (providers.lookup id).isSome then some (setProviders cache (eraseMember id providers))
    else none
  | none => none

/-- Ids of the services of a configuration. -/
def activeProviderIds (config : CoreConfig) : List String :=
  (config.llm.providers.map LlmProvider.id).filter fun id => decide (id≠"")

/-- Services of the cache that are not configured. -/
def orphanedIds (active : List String) (providers : Members) : List String :=
  (providers.map Prod.fst).filter fun id => decide (id∉active)

/-- The cache without the services that are not configured, when there are
any. -/
def pruneModels (active : List String) (cache : Members) : Option Members :=
  match cacheProviders cache with
  | some providers =>
    let orphaned := orphanedIds active providers
    if orphaned=[] then none
    else some (setProviders cache (orphaned.foldl (fun rest id => eraseMember id rest) providers))
  | none => none

/-- A model offered to the user. -/
structure ModelEntry where
  providerId : String
  model : String
  /-- Service and model. -/
  fullId : String
  /-- The command scene uses it. -/
  activeForCommand : Bool
deriving DecidableEq

/-- Every model of every service once. -/
def addEntries (isActive : String → String → Bool) :
    List (String×String) → List ModelEntry → List ModelEntry
  | [],results => results
  | (provider,model)::rest,results =>
    let key := provider++"/"++model
    addEntries isActive rest
      (if provider="" ∨ model="" ∨ key∈results.map ModelEntry.fullId then results
      else results++[⟨provider,model,key,isActive provider model⟩])

/-- The strings among the cached models of a service. -/
def cachedModels (providers : Members) (id : String) : List String :=
  match (providers.lookup id).bind (Json.find "models") with
  | some (.array elements) => elements.filterMap readText
  | _ => []

/-- The models of the configured services, cached or used by a scene. -/
def activeModels (config : CoreConfig) (cache : Members) : List ModelEntry :=
  let active := activeProviderIds config
  let command := config.scenes.definitions.find? fun scene => decide (scene.id=kCommandSceneId)
  let cached := (active.dedup.insertionSort (· ≤ ·)).flatMap fun id =>
    (cachedModels ((cacheProviders cache).getD []) id).map fun model => (id,model)
  let used := (config.scenes.definitions.filter fun scene =>
    decide (scene.providerId∈active)).map fun scene => (scene.providerId,scene.model)
  addEntries (fun provider model => match command with
    | some scene => decide (provider=scene.providerId ∧ model=scene.model)
    | none => false) (cached++used) []

end ModelCache

section Written

variable {id other : String}

/-- A record is read back as it was written, when its time is exact as a
double. -/
theorem readItem_writeItem {record : InstalledRecord} (exact : record.installedAt.toNat<2^53) :
    readItem (writeItem record)=record := by
  obtain ⟨kind,version,sha256,installedAt⟩ := record
  dsimp only at exact
  have htime : int64Member "installed_at" (writeItem ⟨kind,version,sha256,installedAt⟩)=
      installedAt.toNat := by
    have hmember : (writeItem ⟨kind,version,sha256,installedAt⟩).find "installed_at"=
        some (.number (installedAt.toNat : ℚ)) := by
      dsimp only [writeItem]
      rw [toDouble_natCast exact]
      rfl
    unfold int64Member
    rw [hmember]
    dsimp only
    rw [Rat.den_natCast,Rat.num_natCast,if_pos ⟨rfl,by omega,by omega⟩]
  have hcast : UInt64.ofInt installedAt.toNat=installedAt := by
    have hrange : ((installedAt.toNat : ℤ)%2^64).toNat=installedAt.toNat := by omega
    unfold UInt64.ofInt
    rw [hrange,UInt64.ofNat_toNat]
  dsimp only [readItem]
  rw [htime,hcast]
  rfl

/-- The items of a written manifest, read into records. -/
theorem lookup_emplaceItems (entries : List (Sigma fun _ : String => InstalledRecord))
    (records : Records) (id : String) :
    (emplaceItems (entries.map fun entry => (entry.1,writeItem entry.2)) records).lookup id=
      (records.lookup id).or ((entries.dlookup id).map fun record =>
        readItem (writeItem record)) := by
  induction entries generalizing records with
  | nil => rw [List.dlookup_nil,Option.map_none,Option.or_none]; rfl
  | cons entry rest ih =>
    obtain ⟨name,record⟩ := entry
    rw [List.map_cons]
    dsimp only [emplaceItems]
    rw [ih]
    by_cases hid : id=name
    · subst hid
      rw [List.dlookup_cons_eq,Option.map_some]
      by_cases htaken : id∈records
      · obtain ⟨found,hfound⟩ := Option.isSome_iff_exists.mp (AList.lookup_isSome.mpr htaken)
        rw [if_neg fun h => h.2 htaken,hfound]
        rfl
      · rw [if_pos ⟨rfl,htaken⟩,AList.lookup_insert,AList.lookup_eq_none.mpr htaken]
        rfl
    · rw [List.dlookup_cons_ne _ _ hid]
      split
      · rw [AList.lookup_insert_ne hid]
      · rfl

/-- A manifest is read back as it was written. -/
theorem lookup_load_save {records : Records} {id : String}
    (exact : ∀ record, records.lookup id=some record → record.installedAt.toNat<2^53) :
    (load (some (some (save records)))).lookup id=records.lookup id := by
  have hload : load (some (some (save records)))=
      emplaceItems (records.entries.map fun entry => (entry.1,writeItem entry.2)) ∅ := rfl
  rw [hload,lookup_emplaceItems,AList.lookup_empty,Option.none_or]
  change (records.lookup id).map (fun record => readItem (writeItem record))=records.lookup id
  cases hfound : records.lookup id with
  | none => rfl
  | some record => exact congrArg some (readItem_writeItem (exact record hfound))

@[simp] theorem cacheProviders_setProviders (cache providers : Members) :
    cacheProviders (setProviders cache providers)=some providers := by
  unfold cacheProviders setProviders
  rw [lookup_setMember_self]

/-- A service is erased by one of the ids, or not named by them. -/
theorem lookup_foldl_eraseMember (ids : List String) (providers : Members) (id : String) :
    (ids.foldl (fun rest id => eraseMember id rest) providers).lookup id=
      if id∈ids then none else providers.lookup id := by
  induction ids generalizing providers with
  | nil => rfl
  | cons first rest ih =>
    rw [List.foldl_cons,ih]
    by_cases hrest : id∈rest
    · rw [if_pos hrest,if_pos (List.mem_cons_of_mem _ hrest)]
    · rw [if_neg hrest]
      by_cases hfirst : id=first
      · rw [hfirst,lookup_eraseMember_self,if_pos List.mem_cons_self]
      · rw [lookup_eraseMember_of_ne hfirst,
          if_neg fun h => (List.mem_cons.mp h).elim hfirst hrest]

/-- Erasing the orphaned services keeps those that are configured. -/
theorem lookup_erase_orphaned (active : List String) (providers : Members) (id : String) :
    ((orphanedIds active providers).foldl (fun rest id => eraseMember id rest) providers).lookup
      id=if id∈active then providers.lookup id else none := by
  rw [lookup_foldl_eraseMember]
  by_cases hactive : id∈active
  · rw [if_pos hactive,if_neg]
    intro h
    exact of_decide_eq_true (List.mem_filter.mp h).2 hactive
  · rw [if_neg hactive]
    by_cases hthere : id∈orphanedIds active providers
    · rw [if_pos hthere]
    · rw [if_neg hthere,List.lookup_eq_none_iff]
      intro entry hentry
      refine bne_iff_ne.mpr ?_
      intro hid
      exact hthere (List.mem_filter.mpr ⟨List.mem_map.mpr ⟨entry,hentry,hid.symm⟩,
        decide_eq_true hactive⟩)

end Written

end Vinput.RecordFiles
