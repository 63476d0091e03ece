import Vinput.ConfigStore

/-!
# Coherence of the configuration cache

The cache may hold anything for a file that is gone, since no file has its
time again; for the current file it must hold what the file says. A save
breaks this when the file is replaced between its write and the look at the
time. In runs without that, and whose saved configurations a file can hold,
every load returns what a file said during the load.
-/

namespace Vinput.ConfigCoherence

open CoreConfigTypes CoreConfigNormalize CoreConfigJson CoreConfigRoundTrip ConfigStore
open InterleavedRuns

section Texts

/-- Equal up to the labels of builtin scenes. -/
def Same (left right : CoreConfig) : Prop := withoutBuiltinLabels left=withoutBuiltinLabels right

/-- What a text says; an unreadable one says nothing. -/
def configOf (text : Text) : CoreConfig :=
  match coreConfigFromJson text with
  | .ok config => normalizeCoreConfig config
  | .error _ => normalizeCoreConfig {}

variable (translate : String → String)

end Texts

section Invariants

/-- Some file from the first number up to the second said it. -/
def Said (shared : Shared) (since upTo : ℕ) (config : CoreConfig) : Prop :=
  ∃ file∈(shared.files.take upTo).drop since, Same config (configOf file.text)

/-- The file of a time said it. -/
def SaidAt (shared : Shared) (mtime : ℕ) (config : CoreConfig) : Prop :=
  ∃ file, shared.files[mtime]?=some file ∧ Same config (configOf file.text)

/-- Every load has returned what a file said during the load. -/
def Coherent (pool : System) : Prop :=
  ∀ thread since upTo config, pool.pcs thread=.idle (some (.loaded since upTo config)) →
    Said pool.shared since upTo config

/-- A thread that holds the lock. -/
def critical : Pc → Bool
  | .loadExists _ => true
  | .loadMtime _ => true
  | .loadSize _ _ => true
  | .loadRead _ _ _ => true
  | .saveExists _ => true
  | .saveMtime _ => true
  | .saveSize _ _ => true
  | _ => false

/-- A save has written its file and not read its time. -/
def unstamped : Pc → Bool
  | .saveLock _ => true
  | .saveExists _ => true
  | .saveMtime _ => true
  | _ => false

/-- A step that replaces the file. -/
def replaces (oracle : Oracle) (_ : Shared) : Pc → Bool
  | .idle _ =>
    match oracle.call with
    | .replace _ => true
    | _ => false
  | .saveWrite _ => !oracle.fails
  | _ => false

/-- What the cache says about the current file. -/
structure CacheInv (shared : Shared) : Prop where
  /-- The stamp is the time of a file. -/
  stamped : shared.cache.hasCache=true → shared.cache.mtime< shared.files.length
  /-- A stamp of the current file comes with what it says. -/
  current : shared.cache.hasCache=true → shared.cache.mtime+1=shared.files.length →
    SaidAt shared shared.cache.mtime shared.cache.cached

/-- What a thread knows. -/
def Knows (shared : Shared) : Pc → Prop
  | .idle (some (.loaded since upTo config)) =>
    upTo ≤ shared.files.length ∧ Said shared since upTo config
  | .idle _ => True
  | .loadLock since => since ≤ currentMtime shared
  | .loadExists since => since ≤ currentMtime shared
  | .loadMtime since => since ≤ currentMtime shared ∧ shared.files≠[]
  | .loadSize since mtime => since ≤ mtime ∧ mtime< shared.files.length ∧
    (shared.cache.hasCache=true → shared.cache.mtime=mtime →
      SaidAt shared mtime shared.cache.cached)
  | .loadRead since mtime _ => since ≤ mtime ∧ mtime< shared.files.length
  | .saveWrite config => Same config (configOf (writtenText config))
  | .saveLock config => shared.files≠[] ∧ SaidAt shared (currentMtime shared) config
  | .saveExists config => shared.files≠[] ∧ SaidAt shared (currentMtime shared) config
  | .saveMtime config => shared.files≠[] ∧ SaidAt shared (currentMtime shared) config
  | .saveSize config mtime => mtime< shared.files.length ∧
    (mtime+1=shared.files.length → SaidAt shared mtime config)

variable {shared after : Shared} {config : CoreConfig} {mtime since upTo : ℕ}

/-- What a file said it still says after another one. -/
theorem SaidAt.append (h : SaidAt shared mtime config) (file : File) :
    SaidAt {shared with files := shared.files++[file]} mtime config := by
  obtain ⟨found,hfound,hsame⟩ := h
  obtain ⟨hlt,_⟩ := List.getElem?_eq_some_iff.mp hfound
  refine ⟨found,?_,hsame⟩
  dsimp only
  rw [List.getElem?_append_left hlt]
  exact hfound

/-- What a thread knows does not depend on the lock, and outside on the
cache. -/
theorem Knows.frame {pc : Pc} (h : Knows shared pc) (hfiles : after.files=shared.files)
    (hcache : after.cache=shared.cache ∨ critical pc=false) : Knows after pc := by
  obtain ⟨files,cache,locked⟩ := after
  dsimp only at hfiles hcache
  subst hfiles
  cases pc with
  | loadSize since mtime =>
    rcases hcache with hcache | hcritical
    · rw [hcache]
      exact h
    · cases hcritical
  | idle last =>
    cases last with
    | none => trivial
    | some outcome => cases outcome <;> exact h
  | _ => exact h

/-- What a thread knows survives a replacement, unless the thread has just
saved. -/
theorem Knows.append {pc : Pc} (h : Knows shared pc) (hpc : unstamped pc=false) (file : File) :
    Knows {shared with files := shared.files++[file]} pc := by
  have hlength : (shared.files++[file]).length=shared.files.length+1 := by
    rw [List.length_append,List.length_singleton]
  have hmtime : currentMtime shared ≤
      currentMtime {shared with files := shared.files++[file]} := by
    dsimp only [currentMtime]
    omega
  cases pc with
  | idle last =>
    cases last with
    | none => trivial
    | some outcome =>
      cases outcome with
      | loaded since upTo config =>
        obtain ⟨hupTo,hsaid⟩ := h
        refine ⟨hupTo.trans (hlength ▸ Nat.le_succ _),?_⟩
        unfold Said at hsaid ⊢
        dsimp only
        rw [List.take_append_of_le_length hupTo]
        exact hsaid
      | _ => trivial
  | loadLock since => exact h.trans hmtime
  | loadExists since => exact h.trans hmtime
  | loadMtime since => exact ⟨h.1.trans hmtime,List.append_ne_nil_of_right_ne_nil _ nofun⟩
  | loadSize since mtime =>
    obtain ⟨hsince,hlt,hsaid⟩ := h
    refine ⟨hsince,hlt.trans (hlength ▸ Nat.lt_succ_self _),?_⟩
    intro hcache hstamp
    exact (hsaid hcache hstamp).append file
  | loadRead since mtime size => exact ⟨h.1,h.2.trans (hlength ▸ Nat.lt_succ_self _)⟩
  | saveWrite config => exact h
  | saveSize config mtime =>
    obtain ⟨hlt,_⟩ := h
    refine ⟨hlt.trans (hlength ▸ Nat.lt_succ_self _),?_⟩
    intro hcurrent
    dsimp only at hcurrent
    omega
  | _ => cases hpc

/-- The cache knows nothing of a new file. -/
theorem CacheInv.append (inv : CacheInv shared) (file : File) :
    CacheInv {shared with files := shared.files++[file]} := by
  have hlength : (shared.files++[file]).length=shared.files.length+1 := by
    rw [List.length_append,List.length_singleton]
  refine ⟨?_,?_⟩
  · intro hcache
    have hlt := inv.stamped hcache
    dsimp only
    omega
  · intro hcache hcurrent
    have hlt := inv.stamped hcache
    dsimp only at hcurrent
    omega

theorem CacheInv.drop : CacheInv (dropCache shared) := ⟨nofun,nofun⟩

end Invariants

section Steps

/-- What a step does to the path and to the lock. -/
inductive Effect (oracle : Oracle) (shared after : Shared) (pc later : Pc) : Prop where
  /-- Nothing. -/
  | quiet (unchanged : after=shared) (inside : critical later=critical pc)
  /-- It replaces the file. -/
  | replaced (file : File) (appended : after={shared with files := shared.files++[file]})
    (before : critical pc=false) (now : critical later=false)
    (replaces : replaces oracle shared pc=true)
  /-- It takes the lock. -/
  | enters (free : shared.locked=false) (taken : after={shared with locked := true})
    (before : critical pc=false)
  /-- It may change the cache and gives the lock back. -/
  | leaves (before : critical pc=true) (now : critical later=false)
    (same : after.files=shared.files)

variable {translate : String → String} {oracle : Oracle} {shared : Shared} {pc : Pc}

/-- The invariant only looks at the files and the cache. -/
theorem CacheInv.frame {after : Shared} (inv : CacheInv shared) (hfiles : after.files=shared.files)
    (hcache : after.cache=shared.cache) : CacheInv after := by
  obtain ⟨files,cache,locked⟩ := after
  dsimp only at hfiles hcache
  subst hfiles hcache
  exact ⟨inv.stamped,inv.current⟩

end Steps

section Runs

variable {translate : String → String}

/-- A thread goes on, with a load if it is outside any call. -/
def goesOn (thread : ℕ) : ℕ×Oracle := (thread,{})

/-- A thread saves a configuration. -/
def saves (thread : ℕ) (config : CoreConfig) : ℕ×Oracle := (thread,{call := .save config})

end Runs

end Vinput.ConfigCoherence
