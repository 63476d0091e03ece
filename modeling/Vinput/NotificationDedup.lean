import Mathlib.Data.List.Dedup
import Mathlib.Data.List.Induction
import Vinput.NotificationBridge

/-!
# Repeated notifications

The bridge keeps the time of the last occurrence of each notification under
one text made of its title and its body. Within the window this drops what
occurred before, whatever was evicted as out of the window. Two notifications
share their text when a zero byte of a title stands where the other one ends.
-/

namespace Vinput.NotificationDedup

open ProcessLines NotificationBridge

section Occurrences

variable {κ : Type*}

/-- The time of the last occurrence. -/
def Latest (past : List (κ×ℤ)) (key : κ) (time : ℤ) : Prop :=
  (key,time)∈past ∧ ∀ other, (key,other)∈past → other≤time

/-- Something occurred less than the window ago. -/
def Repeated (window : ℤ) (past : List (κ×ℤ)) (key : κ) (now : ℤ) : Prop :=
  ∃ time, (key,time)∈past ∧ now-time<window

/-- What occurred less than the window ago. -/
def alive (window now : ℤ) (past : List (κ×ℤ)) : List κ :=
  (past.filter fun entry => decide (now-entry.2<window)).map Prod.fst

variable {past : List (κ×ℤ)} {key : κ} {time now window : ℤ}

/-- The pairs that are alive are those repeated within the window. -/
theorem mem_alive : key∈alive window now past ↔ Repeated window past key now := by
  unfold alive Repeated
  rw [List.mem_map]
  constructor
  · rintro ⟨entry,hentry,rfl⟩
    obtain ⟨hmem,hrecent⟩ := List.mem_filter.mp hentry
    exact ⟨entry.2,hmem,of_decide_eq_true hrecent⟩
  · rintro ⟨time,hmem,hrecent⟩
    exact ⟨(key,time),List.mem_filter.mpr ⟨hmem,decide_eq_true hrecent⟩,rfl⟩

theorem Latest.unique {other : ℤ} (latest : Latest past key time)
    (hother : Latest past key other) : time=other :=
  le_antisymm (hother.2 time latest.1) (latest.2 other hother.1)

/-- What occurred has a last occurrence. -/
theorem exists_latest (h : (key,time)∈past) : ∃ last, Latest past key last := by
  induction past generalizing time with
  | nil => cases h
  | cons entry past ih =>
    by_cases hlater : ∃ other, (key,other)∈past
    · obtain ⟨other,hother⟩ := hlater
      obtain ⟨last,hmem,hlast⟩ := ih hother
      by_cases hfirst : entry.1=key ∧ last<entry.2
      · obtain ⟨hkey,hlt⟩ := hfirst
        refine ⟨entry.2,hkey ▸ List.mem_cons_self,?_⟩
        intro moment hmoment
        rcases List.mem_cons.mp hmoment with heq | hpast
        · exact le_of_eq (congrArg Prod.snd heq)
        · exact (hlast moment hpast).trans hlt.le
      · refine ⟨last,List.mem_cons_of_mem entry hmem,?_⟩
        intro moment hmoment
        rcases List.mem_cons.mp hmoment with heq | hpast
        · by_contra hlt
          exact hfirst ⟨(congrArg Prod.fst heq).symm,by rw [←heq]; omega⟩
        · exact hlast moment hpast
    · refine ⟨time,h,?_⟩
      have hentry : (key,time)=entry := by
        rcases List.mem_cons.mp h with heq | hpast
        · exact heq
        · exact absurd ⟨time,hpast⟩ hlater
      intro moment hmoment
      rcases List.mem_cons.mp hmoment with heq | hpast
      · exact le_of_eq (congrArg Prod.snd (heq.trans hentry.symm))
      · exact absurd ⟨moment,hpast⟩ hlater

/-- The last occurrence decides whether something is repeated. -/
theorem Latest.repeated_iff (latest : Latest past key time) :
    Repeated window past key now ↔ now-time<window := by
  constructor
  · rintro ⟨other,hmem,hrecent⟩
    have hle := latest.2 other hmem
    omega
  · intro hrecent
    exact ⟨time,latest.1,hrecent⟩

/-- A later occurrence takes the place of the last one of its key only. -/
theorem latest_concat (hlate : ∀ entry∈past, entry.2≤now) (other : κ) :
    Latest (past++[(other,now)]) key time ↔
      (key=other ∧ time=now) ∨ (key≠other ∧ Latest past key time) := by
  have hmem : ∀ moment, (key,moment)∈past++[(other,now)] ↔
      (key,moment)∈past ∨ (key=other ∧ moment=now) := by
    intro moment
    rw [List.mem_append,List.mem_singleton,Prod.mk.injEq]
  constructor
  · rintro ⟨hlast,hmax⟩
    by_cases hkey : key=other
    · have hnow : now≤time := hmax now ((hmem now).mpr (Or.inr ⟨hkey,rfl⟩))
      rcases (hmem time).mp hlast with hpast | hnew
      · exact Or.inl ⟨hkey,le_antisymm (hlate _ hpast) hnow⟩
      · exact Or.inl hnew
    · refine Or.inr ⟨hkey,?_,fun moment hpast => hmax moment ((hmem moment).mpr (Or.inl hpast))⟩
      exact ((hmem time).mp hlast).resolve_right fun hnew => hkey hnew.1
  · rintro (⟨hkey,htime⟩ | ⟨hkey,hlast,hmax⟩)
    · refine ⟨(hmem time).mpr (Or.inr ⟨hkey,htime⟩),?_⟩
      intro moment hmoment
      rcases (hmem moment).mp hmoment with hpast | hnew
      · exact htime ▸ hlate _ hpast
      · exact le_of_eq (hnew.2.trans htime.symm)
    · refine ⟨(hmem time).mpr (Or.inl hlast),?_⟩
      intro moment hmoment
      rcases (hmem moment).mp hmoment with hpast | hnew
      · exact hmax moment hpast
      · exact absurd hnew.1 hkey

end Occurrences

section Cache

variable {cache : List (Bytes×ℤ)}

/-- With distinct keys an entry is found when it is there. -/
theorem lookup_eq_some_iff_mem (hnodup : (cache.map Prod.fst).Nodup) {key : Bytes} {time : ℤ} :
    cache.lookup key=some time ↔ (key,time)∈cache := by
  induction cache with
  | nil => exact ⟨nofun,nofun⟩
  | cons entry cache ih =>
    obtain ⟨first,moment⟩ := entry
    rw [List.map_cons,List.nodup_cons] at hnodup
    rw [List.lookup_cons,List.mem_cons]
    by_cases hkey : key=first
    · subst hkey
      rw [beq_self_eq_true]
      constructor
      · intro h
        exact Or.inl (by rw [Option.some.inj h])
      · rintro (h | h)
        · rw [(Prod.mk.inj h).2]
        · exact absurd (List.mem_map.mpr ⟨_,h,rfl⟩) hnodup.1
    · rw [beq_false_of_ne hkey]
      refine (ih hnodup.2).trans ⟨Or.inr,?_⟩
      rintro (h | h)
      · exact absurd (Prod.mk.inj h).1 hkey
      · exact h

/-- The cache beside all that occurred, at a reading of the clock. -/
structure CacheInv (window now : ℤ) (past cache : List (Bytes×ℤ)) : Prop where
  /-- A text has one entry. -/
  nodup : (cache.map Prod.fst).Nodup
  /-- An entry is the last occurrence of its text. -/
  sound : ∀ key time, (key,time)∈cache → Latest past key time
  /-- A last occurrence within the window has an entry. -/
  complete : ∀ key time, Latest past key time → now-time<window → (key,time)∈cache
  /-- Nothing occurs in the future. -/
  late : ∀ entry∈past, entry.2≤now

variable {window now later : ℤ} {past : List (Bytes×ℤ)} {key : Bytes} {time : ℤ}

/-- Time passes. -/
theorem CacheInv.wait (inv : CacheInv window now past cache) (h : now≤later) :
    CacheInv window later past cache := by
  refine ⟨inv.nodup,inv.sound,?_,fun entry hmem => (inv.late entry hmem).trans h⟩
  intro key time latest hrecent
  exact inv.complete key time latest (by omega)

/-- The cache tells what is repeated. -/
theorem CacheInv.repeated_iff (inv : CacheInv window now past cache) :
    (∃ time, cache.lookup key=some time ∧ now-time<window) ↔ Repeated window past key now := by
  constructor
  · rintro ⟨time,hlookup,hrecent⟩
    have hmem := (lookup_eq_some_iff_mem inv.nodup).mp hlookup
    exact (inv.sound key time hmem).repeated_iff.mpr hrecent
  · rintro ⟨moment,hmem,hrecent⟩
    obtain ⟨last,latest⟩ := exists_latest hmem
    have hlast : now-last<window := latest.repeated_iff.mp ⟨moment,hmem,hrecent⟩
    exact ⟨last,(lookup_eq_some_iff_mem inv.nodup).mpr (inv.complete key last latest hlast),hlast⟩

theorem map_fst_touch (key : Bytes) (now : ℤ) (cache : List (Bytes×ℤ)) :
    (touch key now cache).map Prod.fst=cache.map Prod.fst := by
  unfold touch
  rw [List.map_map]
  refine List.map_congr_left fun entry _ => ?_
  dsimp only [Function.comp]
  split
  · rename_i hkey
    exact hkey.symm
  · rfl

/-- Touching sets the time of one key. -/
theorem mem_touch (h : cache.lookup key=some time) (other : Bytes) (moment : ℤ) :
    (other,moment)∈touch key now cache ↔
      (other=key ∧ moment=now) ∨ (other≠key ∧ (other,moment)∈cache) := by
  unfold touch
  rw [List.mem_map]
  constructor
  · rintro ⟨entry,hmem,hentry⟩
    split at hentry
    · exact Or.inl ⟨(Prod.mk.inj hentry).1.symm,(Prod.mk.inj hentry).2.symm⟩
    · rename_i hkey
      subst hentry
      exact Or.inr ⟨hkey,hmem⟩
  · rintro (⟨hother,hmoment⟩ | ⟨hother,hmem⟩)
    · obtain ⟨before,after,hcache,-⟩ := List.lookup_eq_some_iff.mp h
      refine ⟨(key,time),?_,?_⟩
      · rw [hcache]
        exact List.mem_append_right before List.mem_cons_self
      · rw [if_pos rfl,hother,hmoment]
    · exact ⟨(other,moment),hmem,if_neg hother⟩

/-- A known text occurs again. -/
theorem CacheInv.touch (inv : CacheInv window now past cache) (h : cache.lookup key=some time) :
    CacheInv window now (past++[(key,now)]) (touch key now cache) := by
  refine ⟨?_,?_,?_,?_⟩
  · rw [map_fst_touch]
    exact inv.nodup
  · intro other moment hmem
    rw [latest_concat inv.late]
    refine ((mem_touch h other moment).mp hmem).imp_right ?_
    rintro ⟨hother,hcache⟩
    exact ⟨hother,inv.sound other moment hcache⟩
  · intro other moment latest hrecent
    rw [latest_concat inv.late] at latest
    refine (mem_touch h other moment).mpr (latest.imp_right ?_)
    rintro ⟨hother,hlatest⟩
    exact ⟨hother,inv.complete other moment hlatest hrecent⟩
  · intro entry hmem
    rcases List.mem_append.mp hmem with hpast | hnew
    · exact inv.late entry hpast
    · rw [List.mem_singleton.mp hnew]

/-- A text occurs that has no entry. -/
theorem CacheInv.insert (inv : CacheInv window now past cache) (h : cache.lookup key=none) :
    CacheInv window now (past++[(key,now)]) (cache++[(key,now)]) := by
  have hnew : ∀ moment, (key,moment)∉cache := by
    intro moment hmem
    have hlookup := (lookup_eq_some_iff_mem inv.nodup).mpr hmem
    rw [h] at hlookup
    cases hlookup
  have hmem : ∀ other moment, (other,moment)∈cache++[(key,now)] ↔
      (other=key ∧ moment=now) ∨ (other≠key ∧ (other,moment)∈cache) := by
    intro other moment
    rw [List.mem_append,List.mem_singleton,Prod.mk.injEq,or_comm]
    refine or_congr_right ⟨?_,And.right⟩
    intro hcache
    refine ⟨?_,hcache⟩
    rintro rfl
    exact hnew moment hcache
  refine ⟨?_,?_,?_,?_⟩
  · rw [List.map_append,List.map_singleton]
    refine List.nodup_append.mpr ⟨inv.nodup,List.nodup_singleton key,?_⟩
    intro first hfirst second hsecond heq
    obtain ⟨⟨other,moment⟩,hentry,hkey⟩ := List.mem_map.mp hfirst
    have hother : other=key := hkey.trans (heq.trans (List.mem_singleton.mp hsecond))
    exact hnew moment (hother ▸ hentry)
  · intro other moment hmoment
    rw [latest_concat inv.late]
    refine ((hmem other moment).mp hmoment).imp_right ?_
    rintro ⟨hother,hcache⟩
    exact ⟨hother,inv.sound other moment hcache⟩
  · intro other moment latest hrecent
    rw [latest_concat inv.late] at latest
    refine (hmem other moment).mpr (latest.imp_right ?_)
    rintro ⟨hother,hlatest⟩
    exact ⟨hother,inv.complete other moment hlatest hrecent⟩
  · intro entry hentry
    rcases List.mem_append.mp hentry with hpast | hlast
    · exact inv.late entry hpast
    · rw [List.mem_singleton.mp hlast]

/-- Without the entries out of the window the cache tells the same. -/
theorem CacheInv.recent (inv : CacheInv window now past cache) :
    CacheInv window now past (cache.filter fun entry => decide (now-entry.2<window)) := by
  refine ⟨?_,?_,?_,inv.late⟩
  · exact inv.nodup.sublist (List.filter_sublist.map Prod.fst)
  · intro key time hmem
    exact inv.sound key time (List.mem_filter.mp hmem).1
  · intro key time latest hrecent
    exact List.mem_filter.mpr ⟨inv.complete key time latest hrecent,decide_eq_true hrecent⟩

/-- Entries within the window are no more than what is alive. -/
theorem CacheInv.length_recent_le (inv : CacheInv window now past cache) {keys : List Bytes}
    (halive : ∀ key, Repeated window past key now → key∈keys) :
    (cache.filter fun entry => decide (now-entry.2<window)).length≤keys.length := by
  have hsubset : (cache.filter fun entry => decide (now-entry.2<window)).map Prod.fst ⊆ keys := by
    intro key hkey
    obtain ⟨entry,hentry,rfl⟩ := List.mem_map.mp hkey
    obtain ⟨hmem,hrecent⟩ := List.mem_filter.mp hentry
    have latest := inv.sound entry.1 entry.2 hmem
    exact halive entry.1 (latest.repeated_iff.mpr (of_decide_eq_true hrecent))
  have hlength := (List.subperm_of_subset inv.recent.nodup hsubset).length_le
  rw [List.length_map] at hlength
  exact hlength

end Cache

section Eviction

variable {env : Environment}

/-- The oldest entry is one of the cache. -/
theorem oldestEntry_mem {cache : List (Bytes×ℤ)} {oldest : Bytes×ℤ}
    (h : oldestEntry cache=some oldest) : oldest∈cache := by
  cases cache with
  | nil => cases h
  | cons first rest =>
    have hfold : ∀ (entries : List (Bytes×ℤ)) (start : Bytes×ℤ),
        entries.foldl (fun oldest entry => if entry.2<oldest.2 then entry else oldest) start∈
          start::entries := by
      intro entries
      induction entries with
      | nil => exact fun start => List.mem_cons_self
      | cons entry entries ih =>
        intro start
        rw [List.foldl_cons]
        split
        · exact List.mem_cons_of_mem start (ih entry)
        · rcases List.mem_cons.mp (ih start) with hstart | hlater
          · rw [hstart]
            exact List.mem_cons_self
          · exact List.mem_cons_of_mem start (List.mem_cons_of_mem entry hlater)
    rw [←Option.some.inj h]
    exact hfold rest first

/-- A cache that is not empty has an oldest entry. -/
theorem oldestEntry_isSome {cache : List (Bytes×ℤ)} (h : cache≠[]) :
    ∃ oldest, oldestEntry cache=some oldest := by
  cases cache with
  | nil => exact absurd rfl h
  | cons first rest => exact ⟨_,rfl⟩

/-- The oldest entry goes. -/
def dropOldest (env : Environment) (cache : List (Bytes×ℤ)) : List (Bytes×ℤ) :=
  match oldestEntry (env.walk cache) with
  | some oldest => cache.erase oldest
  | none => cache

/-- Each turn takes one entry out. -/
theorem length_dropOldest (walks : ∀ cache, (env.walk cache).Perm cache)
    {cache : List (Bytes×ℤ)} (h : cache≠[]) :
    (dropOldest env cache).length=cache.length-1 := by
  have hwalked : env.walk cache≠[] := by
    intro hnil
    have hperm := walks cache
    rw [hnil] at hperm
    exact h hperm.nil_eq.symm
  obtain ⟨oldest,holdest⟩ := oldestEntry_isSome hwalked
  unfold dropOldest
  rw [holdest]
  exact List.length_erase_of_mem ((walks cache).mem_iff.mp (oldestEntry_mem holdest))

theorem length_iterate_dropOldest (walks : ∀ cache, (env.walk cache).Perm cache) (turns : ℕ)
    {cache : List (Bytes×ℤ)} (h : turns≤cache.length) :
    ((dropOldest env)^[turns] cache).length=cache.length-turns := by
  induction turns generalizing cache with
  | zero => rfl
  | succ turns ih =>
    have hne : cache≠[] := by
      rintro rfl
      rw [List.length_nil] at h
      omega
    have hlength := length_dropOldest walks hne
    rw [Function.iterate_succ_apply,ih (by omega)]
    omega

/-- What is evicted leaves room. -/
theorem length_evict_le (walks : ∀ cache, (env.walk cache).Perm cache) (now : ℤ)
    (cache : List (Bytes×ℤ)) :
    (evictStaleDedupEntriesLocked env now cache).length≤kMaxDedupCacheSize := by
  have hlength := length_iterate_dropOldest walks
    ((cache.filter fun entry => decide (now-entry.2<env.dedupWindow)).length-kMaxDedupCacheSize)
    (Nat.sub_le _ _)
  refine (Nat.le_of_eq hlength).trans ?_
  omega

/-- A cache whose recent entries fit loses the others only. -/
theorem evict_of_fits {now : ℤ} {cache : List (Bytes×ℤ)}
    (h : (cache.filter fun entry => decide (now-entry.2<env.dedupWindow)).length≤
      kMaxDedupCacheSize) :
    evictStaleDedupEntriesLocked env now cache=
      cache.filter fun entry => decide (now-entry.2<env.dedupWindow) := by
  unfold evictStaleDedupEntriesLocked
  dsimp only
  rw [Nat.sub_eq_zero_of_le h]
  rfl

end Eviction

section Keys

/-- Two different notifications with the same text: a zero byte of one title
stands where the other title ends. -/
def Confused (first second : Bytes×Bytes) : Prop :=
  ∃ middle, (second.1=first.1++0::middle ∧ first.2=middle++0::second.2) ∨
    (first.1=second.1++0::middle ∧ second.2=middle++0::first.2)

/-- Two notices have one key when they are the same or confused by a zero byte. -/
theorem makeDedupKey_eq_iff (first second : Bytes×Bytes) :
    makeDedupKey first.1 first.2=makeDedupKey second.1 second.2 ↔
      first=second ∨ Confused first second := by
  obtain ⟨title,body⟩ := first
  obtain ⟨title',body'⟩ := second
  unfold makeDedupKey Confused
  dsimp only
  constructor
  · intro h
    rcases List.append_eq_append_iff.mp h with ⟨between,htitle,hbody⟩ | ⟨between,htitle,hbody⟩
    · cases between with
      | nil =>
        rw [List.append_nil] at htitle
        exact Or.inl (Prod.ext htitle.symm (List.cons.inj hbody).2)
      | cons byte middle =>
        obtain ⟨hbyte,hrest⟩ := List.cons.inj hbody
        exact Or.inr ⟨middle,Or.inl ⟨by rw [htitle,hbyte],hrest⟩⟩
    · cases between with
      | nil =>
        rw [List.append_nil] at htitle
        exact Or.inl (Prod.ext htitle (List.cons.inj hbody).2.symm)
      | cons byte middle =>
        obtain ⟨hbyte,hrest⟩ := List.cons.inj hbody
        exact Or.inr ⟨middle,Or.inr ⟨by rw [htitle,hbyte],hrest⟩⟩
  · rintro (h | ⟨middle,⟨htitle,hbody⟩ | ⟨htitle,hbody⟩⟩)
    · rw [(Prod.mk.inj h).1,(Prod.mk.inj h).2]
    · rw [htitle,hbody,List.append_assoc]
      rfl
    · rw [htitle,hbody,List.append_assoc]
      rfl

end Keys

section Sequences

variable (env : Environment)

/-- Title and body of the notification of a line. -/
def pairOf (line : Bytes×Bytes) : Bytes×Bytes :=
  ((notificationOf env line.1 line.2).title,(notificationOf env line.1 line.2).body)

/-- The notifications of lines, each with its reading of the clock. A line
comes with the title for it. -/
def occurrences (first : ℕ) : List (Bytes×Bytes) → List ((Bytes×Bytes)×ℤ)
  | [] => []
  | line::rest =>
    if trim line.2=[] then occurrences first rest
    else (pairOf env line,env.times first)::occurrences (first+1) rest

/-- The clock does not go back. -/
def ClockForward : Prop := ∀ earlier later, earlier≤later → env.times earlier≤env.times later

/-- Lines are processed one after the other, behind an empty cache. -/
def processAll (first : ℕ) (lines : List (Bytes×Bytes)) : Handling :=
  lines.foldl (fun handling line => processLineLocked env line.1 handling line.2)
    ⟨[],first,[],[]⟩

/-- The reading of the clock for the line behind these. -/
def timeAfter (first : ℕ) (before : List (Bytes×Bytes)) : ℤ :=
  env.times (first+(occurrences env first before).length)

/-- Something holds at each line with a notification, and the lines
before. -/
def EachLine (prop : List (Bytes×Bytes) → Bytes×Bytes → Prop) (lines : List (Bytes×Bytes)) :
    Prop :=
  ∀ before line after, lines=before++line::after → trim line.2≠[] → prop before line

/-- A line is not forwarded. -/
def Suppressed (handling : Handling) (line : Bytes×Bytes) : Prop :=
  (processLineLocked env line.1 handling line.2).readyToSend=handling.readyToSend

/-- Fewer notifications than the cache can hold are alive when a line
arrives. -/
def FewAlive (first : ℕ) : List (Bytes×Bytes) → Prop :=
  EachLine fun before _ =>
    (alive env.dedupWindow (timeAfter env first before) (occurrences env first before)).dedup.length<
      kMaxDedupCacheSize

/-- A line is suppressed if and only if the same notification occurred less
than the window before. -/
def SuppressesRepeats (first : ℕ) : List (Bytes×Bytes) → Prop :=
  EachLine fun before line =>
    Suppressed env (processAll env first before) line ↔
      Repeated env.dedupWindow (occurrences env first before) (pairOf env line)
        (timeAfter env first before)

/-- A notification that occurs within the window of another one with the same
text occurred itself within the window. -/
def Unconfused (first : ℕ) : List (Bytes×Bytes) → Prop :=
  EachLine fun before line =>
    ∀ other, Repeated env.dedupWindow (occurrences env first before) other
        (timeAfter env first before) → Confused other (pairOf env line) →
      Repeated env.dedupWindow (occurrences env first before) (pairOf env line)
        (timeAfter env first before)

/-- What occurred, under the texts of the cache. -/
def keyed (past : List ((Bytes×Bytes)×ℤ)) : List (Bytes×ℤ) :=
  past.map fun entry => (makeDedupKey entry.1.1 entry.1.2,entry.2)

variable {env} {first : ℕ} {before lines : List (Bytes×Bytes)} {line : Bytes×Bytes}

/-- Nothing is to be shown of no lines. -/
theorem eachLine_nil {prop : List (Bytes×Bytes) → Bytes×Bytes → Prop} : EachLine prop [] := by
  intro before line after h
  exact absurd h.symm (List.append_ne_nil_of_right_ne_nil before (List.cons_ne_nil line after))

/-- A property of each line is one of the lines before and the last one. -/
theorem eachLine_concat {prop : List (Bytes×Bytes) → Bytes×Bytes → Prop} :
    EachLine prop (lines++[line]) ↔ EachLine prop lines ∧ (trim line.2≠[] → prop lines line) := by
  constructor
  · intro h
    refine ⟨?_,fun hline => h lines line [] rfl hline⟩
    intro before other after hlines
    exact h before other (after++[line]) (by rw [hlines,List.append_assoc]; rfl)
  · rintro ⟨hlines,hline⟩ before other after heq hother
    rcases List.eq_nil_or_concat after with hnil | ⟨middle,last,hafter⟩
    · subst hnil
      obtain ⟨rfl,hlast⟩ := List.append_inj' heq rfl
      rw [List.cons.inj hlast |>.1] at hline
      exact hline hother
    · rw [hafter,List.concat_eq_append,←List.cons_append,←List.append_assoc] at heq
      exact hlines before other middle (List.append_inj' heq rfl).1 hother

/-- Occurrences of two texts follow each other. -/
theorem occurrences_append (first : ℕ) (before after : List (Bytes×Bytes)) :
    occurrences env first (before++after)=occurrences env first before++
      occurrences env (first+(occurrences env first before).length) after := by
  induction before generalizing first with
  | nil => rfl
  | cons line before ih =>
    rw [List.cons_append,occurrences,occurrences]
    split
    · exact ih first
    · rw [ih,List.cons_append,List.length_cons,Nat.add_assoc,Nat.add_comm 1]

/-- A line that is not blank occurs at its time. -/
theorem occurrences_concat (h : trim line.2≠[]) :
    occurrences env first (before++[line])=
      occurrences env first before++[(pairOf env line,timeAfter env first before)] := by
  rw [occurrences_append,occurrences,if_neg h]
  rfl

theorem occurrences_concat_blank (h : trim line.2=[]) :
    occurrences env first (before++[line])=occurrences env first before := by
  rw [occurrences_append,occurrences,if_pos h,occurrences,List.append_nil]

/-- Lines are processed one after another. -/
theorem processAll_concat : processAll env first (before++[line])=
    processLineLocked env line.1 (processAll env first before) line.2 :=
  List.foldl_concat ..

/-- A key is repeated when a notice with that key is. -/
theorem repeated_keyed {past : List ((Bytes×Bytes)×ℤ)} {key : Bytes} {window now : ℤ} :
    Repeated window (keyed past) key now ↔
      ∃ pair, Repeated window past pair now ∧ makeDedupKey pair.1 pair.2=key := by
  unfold Repeated keyed
  constructor
  · rintro ⟨time,hmem,hrecent⟩
    obtain ⟨entry,hentry,heq⟩ := List.mem_map.mp hmem
    obtain ⟨hkey,htime⟩ := Prod.mk.inj heq
    exact ⟨entry.1,⟨time,htime ▸ hentry,hrecent⟩,hkey⟩
  · rintro ⟨pair,⟨time,hmem,hrecent⟩,hkey⟩
    exact ⟨time,List.mem_map.mpr ⟨_,hmem,by rw [hkey]⟩,hrecent⟩

/-- What a line with a notification does to the cache. -/
theorem processLine_cases (handling : Handling) (h : trim line.2≠[]) :
    let now := env.times handling.readings
    let key := makeDedupKey (pairOf env line).1 (pairOf env line).2
    let sent := handling.readyToSend++[notificationOf env line.1 line.2]
    let later := processLineLocked env line.1 handling line.2
    later.readings=handling.readings+1 ∧
      ((∃ time, handling.dedupCache.lookup key=some time ∧
          later.dedupCache=touch key now handling.dedupCache ∧
          later.readyToSend=if now-time<env.dedupWindow then handling.readyToSend else sent) ∨
        (handling.dedupCache.lookup key=none ∧
          later.dedupCache=(if kMaxDedupCacheSize<(handling.dedupCache++[(key,now)]).length then
            evictStaleDedupEntriesLocked env now (handling.dedupCache++[(key,now)])
            else handling.dedupCache++[(key,now)]) ∧
          later.readyToSend=sent)) := by
  dsimp only [pairOf]
  unfold processLineLocked
  dsimp only
  rw [if_neg h]
  split
  · rename_i time hlookup
    split
    · rename_i hrecent
      exact ⟨rfl,Or.inl ⟨time,hlookup,rfl,(if_pos hrecent).symm⟩⟩
    · rename_i hrecent
      exact ⟨rfl,Or.inl ⟨time,hlookup,rfl,(if_neg hrecent).symm⟩⟩
  · rename_i hlookup
    exact ⟨rfl,Or.inr ⟨hlookup,rfl,rfl⟩⟩

/-- A line is suppressed when its text is repeated. -/
theorem suppressed_iff {handling : Handling} {past : List (Bytes×ℤ)} (h : trim line.2≠[])
    (inv : CacheInv env.dedupWindow (env.times handling.readings) past handling.dedupCache) :
    Suppressed env handling line ↔ Repeated env.dedupWindow past
      (makeDedupKey (pairOf env line).1 (pairOf env line).2) (env.times handling.readings) := by
  have hsent : handling.readyToSend++[notificationOf env line.1 line.2]≠handling.readyToSend := by
    intro heq
    have hlength := congrArg List.length heq
    rw [List.length_append,List.length_singleton] at hlength
    omega
  rw [←inv.repeated_iff]
  unfold Suppressed
  obtain ⟨-,⟨time,hlookup,-,hready⟩ | ⟨hlookup,-,hready⟩⟩ := processLine_cases handling h
  · rw [hready,hlookup]
    constructor
    · intro hsame
      by_cases hrecent : env.times handling.readings-time<env.dedupWindow
      · exact ⟨time,rfl,hrecent⟩
      · rw [if_neg hrecent] at hsame
        exact absurd hsame hsent
    · rintro ⟨other,hother,hrecent⟩
      rw [Option.some.inj hother,if_pos hrecent]
  · rw [hready,hlookup]
    exact ⟨fun hsame => absurd hsame hsent,fun ⟨_,hnone,_⟩ => absurd hnone nofun⟩

/-- A line keeps the cache beside what occurred. -/
theorem processLine_cache {handling : Handling} {past : List ((Bytes×Bytes)×ℤ)}
    (h : trim line.2≠[])
    (inv : CacheInv env.dedupWindow (env.times handling.readings) (keyed past)
      handling.dedupCache)
    (few : (alive env.dedupWindow (env.times handling.readings) past).dedup.length<
      kMaxDedupCacheSize) :
    CacheInv env.dedupWindow (env.times handling.readings)
      (keyed (past++[(pairOf env line,env.times handling.readings)]))
      (processLineLocked env line.1 handling line.2).dedupCache := by
  have hkeyed : keyed (past++[(pairOf env line,env.times handling.readings)])=
      keyed past++[(makeDedupKey (pairOf env line).1 (pairOf env line).2,
        env.times handling.readings)] := List.map_append
  rw [hkeyed]
  obtain ⟨-,⟨time,hlookup,hcache,-⟩ | ⟨hlookup,hcache,-⟩⟩ := processLine_cases handling h
  · rw [hcache]
    exact inv.touch hlookup
  · rw [hcache]
    have hinserted := inv.insert hlookup
    split
    · have halive : ∀ key, Repeated env.dedupWindow (keyed past++
            [(makeDedupKey (pairOf env line).1 (pairOf env line).2,
              env.times handling.readings)]) key (env.times handling.readings) →
          key∈makeDedupKey (pairOf env line).1 (pairOf env line).2::
            ((alive env.dedupWindow (env.times handling.readings) past).dedup.map
              fun pair => makeDedupKey pair.1 pair.2) := by
        rintro key ⟨moment,hmoment,hrecent⟩
        rcases List.mem_append.mp hmoment with hpast | hnew
        · obtain ⟨pair,hrepeated,hkey⟩ := repeated_keyed.mp ⟨moment,hpast,hrecent⟩
          refine List.mem_cons_of_mem _ (List.mem_map.mpr ⟨pair,?_,hkey⟩)
          exact List.mem_dedup.mpr (mem_alive.mpr hrepeated)
        · rw [(Prod.mk.inj (List.mem_singleton.mp hnew)).1]
          exact List.mem_cons_self
      have hfits := hinserted.length_recent_le halive
      rw [List.length_cons,List.length_map] at hfits
      rw [evict_of_fits (by omega)]
      exact hinserted.recent
    · exact hinserted

theorem processLine_blank (handling : Handling) (h : trim line.2=[]) :
    (processLineLocked env line.1 handling line.2).dedupCache=handling.dedupCache ∧
      (processLineLocked env line.1 handling line.2).readings=handling.readings := by
  unfold processLineLocked
  dsimp only
  rw [if_pos h]
  exact ⟨rfl,rfl⟩

/-- The clock is read for each notification. -/
theorem readings_processAll (first : ℕ) (lines : List (Bytes×Bytes)) :
    (processAll env first lines).readings=first+(occurrences env first lines).length := by
  induction lines using List.reverseRecOn with
  | nil => rfl
  | append_singleton lines line ih =>
    rw [processAll_concat]
    by_cases hline : trim line.2=[]
    · rw [(processLine_blank _ hline).2,occurrences_concat_blank hline]
      exact ih
    · rw [(processLine_cases _ hline).1,occurrences_concat hline,List.length_append,ih]
      rfl

/-- Lines keep the cache beside what occurred. -/
theorem processAll_cache (forward : ClockForward env) (first : ℕ)
    (lines : List (Bytes×Bytes)) (few : FewAlive env first lines) :
    CacheInv env.dedupWindow (timeAfter env first lines) (keyed (occurrences env first lines))
      (processAll env first lines).dedupCache := by
  induction lines using List.reverseRecOn with
  | nil =>
    refine ⟨List.nodup_nil,?_,?_,?_⟩
    · exact fun _ _ h => absurd h List.not_mem_nil
    · exact fun _ _ h _ => absurd h.1 List.not_mem_nil
    · exact fun _ h => absurd h List.not_mem_nil
  | append_singleton lines line ih =>
    obtain ⟨hbefore,hline⟩ := eachLine_concat.mp few
    have inv := ih hbefore
    have hreadings : (processAll env first lines).readings=
        first+(occurrences env first lines).length := readings_processAll first lines
    rw [processAll_concat]
    by_cases hblank : trim line.2=[]
    · unfold timeAfter
      rw [(processLine_blank _ hblank).1,occurrences_concat_blank hblank]
      exact inv
    · have hnow : timeAfter env first lines=env.times (processAll env first lines).readings := by
        rw [hreadings]
        rfl
      have hlater : timeAfter env first lines≤timeAfter env first (lines++[line]) := by
        refine forward _ _ ?_
        rw [occurrences_concat hblank,List.length_append]
        omega
      refine CacheInv.wait ?_ hlater
      rw [occurrences_concat hblank,hnow]
      rw [hnow] at inv
      exact processLine_cache hblank inv (hnow ▸ hline hblank)

/-- The cache stays within its bound. -/
theorem length_dedupCache_le (walks : ∀ cache, (env.walk cache).Perm cache) (first : ℕ)
    (lines : List (Bytes×Bytes)) :
    (processAll env first lines).dedupCache.length≤kMaxDedupCacheSize := by
  induction lines using List.reverseRecOn with
  | nil => exact Nat.zero_le _
  | append_singleton lines line ih =>
    rw [processAll_concat]
    by_cases hblank : trim line.2=[]
    · rw [(processLine_blank _ hblank).1]
      exact ih
    · obtain ⟨-,⟨time,-,hcache,-⟩ | ⟨-,hcache,-⟩⟩ := processLine_cases
        (processAll env first lines) hblank
      · rw [hcache,touch,List.length_map]
        exact ih
      · rw [hcache]
        split
        · exact length_evict_le walks _ _
        · omega

/-- Where the clock does not go back and the notifications alive fit into the
cache, exactly the repeated ones are suppressed if and only if none is
confused with another one. The cache never grows above its bound. -/
theorem repeats_suppressed (walks : ∀ cache, (env.walk cache).Perm cache) (first : ℕ)
    (lines : List (Bytes×Bytes)) :
    (processAll env first lines).dedupCache.length≤kMaxDedupCacheSize ∧
      (ClockForward env → FewAlive env first lines →
        (SuppressesRepeats env first lines ↔ Unconfused env first lines)) := by
  refine ⟨length_dedupCache_le walks first lines,?_⟩
  intro forward few
  have hexact : ∀ before line after, lines=before++line::after → trim line.2≠[] →
      (Suppressed env (processAll env first before) line ↔
        ∃ other, Repeated env.dedupWindow (occurrences env first before) other
            (timeAfter env first before) ∧
          (other=pairOf env line ∨ Confused other (pairOf env line))) := by
    intro before line after hlines hline
    have hbefore : FewAlive env first before := by
      intro earlier other rest hsplit
      exact few earlier other (rest++line::after) (by rw [hlines,hsplit,List.append_assoc]; rfl)
    have inv := processAll_cache forward first before hbefore
    have hnow : timeAfter env first before=env.times (processAll env first before).readings := by
      rw [readings_processAll]
      rfl
    rw [hnow] at inv ⊢
    rw [suppressed_iff hline inv,repeated_keyed]
    exact exists_congr fun other => and_congr_right fun _ => makeDedupKey_eq_iff other _
  constructor
  · intro exact before line after hlines hline other hrepeated hconfused
    refine (exact before line after hlines hline).mp ?_
    exact (hexact before line after hlines hline).mpr ⟨other,hrepeated,Or.inr hconfused⟩
  · intro unconfused before line after hlines hline
    rw [hexact before line after hlines hline]
    constructor
    · rintro ⟨other,hrepeated,hsame | hconfused⟩
      · exact hsame ▸ hrepeated
      · exact unconfused before line after hlines hline other hrepeated hconfused
    · intro hrepeated
      exact ⟨_,hrepeated,Or.inl rfl⟩

/-- What occurred is the notification of a line. -/
theorem mem_occurrences {entry : (Bytes×Bytes)×ℤ} {lines : List (Bytes×Bytes)}
    (h : entry∈occurrences env first lines) : ∃ line∈lines, entry.1=pairOf env line := by
  induction lines generalizing first with
  | nil => cases h
  | cons line lines ih =>
    rw [occurrences] at h
    split at h
    · obtain ⟨other,hmem,hother⟩ := ih h
      exact ⟨other,List.mem_cons_of_mem line hmem,hother⟩
    · rcases List.mem_cons.mp h with hentry | hlater
      · exact ⟨line,List.mem_cons_self,by rw [hentry]⟩
      · obtain ⟨other,hmem,hother⟩ := ih hlater
        exact ⟨other,List.mem_cons_of_mem line hmem,hother⟩

/-- Titles without a zero byte are not confused. -/
theorem unconfused_of_titles (first : ℕ) (lines : List (Bytes×Bytes))
    (clean : ∀ line∈lines, 0∉(pairOf env line).1) : Unconfused env first lines := by
  intro before line after hlines _ other hrepeated hconfused
  obtain ⟨time,hmem,-⟩ := hrepeated
  obtain ⟨earlier,hearlier,hother⟩ := mem_occurrences hmem
  have hfirst : 0∉other.1 := by
    have hpair : other=pairOf env earlier := hother
    rw [hpair]
    exact clean earlier (hlines ▸ List.mem_append_left _ hearlier)
  have hsecond : 0∉(pairOf env line).1 :=
    clean line (hlines ▸ List.mem_append_right before List.mem_cons_self)
  obtain ⟨middle,⟨htitle,-⟩ | ⟨htitle,-⟩⟩ := hconfused
  · rw [htitle] at hsecond
    exact absurd (List.mem_append_right other.1 List.mem_cons_self) hsecond
  · rw [htitle] at hfirst
    exact absurd (List.mem_append_right _ List.mem_cons_self) hfirst

/-- A line whose title is given: the text `a`. -/
def plainLine : Bytes×Bytes := ([116],[97])

/-- The text of an object with the title `a`, a zero byte and `b`, and the
body `c`. -/
def longTitle : Bytes :=
  [123,34,116,105,116,108,101,34,58,34,97,92,117,48,48,48,48,98,34,44,34,98,111,100,121,34,58,34,
    99,34,125]

/-- The text of an object with the title `a`, and the body `b`, a zero byte
and `c`. -/
def longBody : Bytes :=
  [123,34,116,105,116,108,101,34,58,34,97,34,44,34,98,111,100,121,34,58,34,98,92,117,48,48,48,48,
    99,34,125]

/-- A reader of these objects, and a clock that stands. -/
def reader : Environment :=
  {times := fun _ => 0,dedupWindow := 3000,voiceInput := [118],walk := id
   readWire := fun text =>
    if text=longTitle then some (some [97,0,98],some [99])
    else if text=longBody then some (some [97],some [98,0,99])
    else none}

/-- A clock that stands does not go back. -/
theorem reader_forward : ClockForward reader := fun _ _ _ => Int.le_refl _

/-- Two lines never fill the cache. -/
theorem fewAlive_two (env : Environment) (first : ℕ) (one two : Bytes×Bytes) :
    FewAlive env first [one,two] := by
  have hlength : ∀ lines, (alive env.dedupWindow (timeAfter env first lines)
      (occurrences env first lines)).dedup.length≤(occurrences env first lines).length := by
    intro lines
    refine (List.dedup_sublist _).length_le.trans ?_
    unfold alive
    rw [List.length_map]
    exact List.length_filter_le ..
  have hone : (occurrences env first [one]).length≤1 := by
    rw [occurrences]
    split
    · exact Nat.zero_le _
    · exact Nat.le_refl _
  have hlines : [one,two]=([]++[one])++[two] := rfl
  rw [hlines,FewAlive,eachLine_concat,eachLine_concat]
  refine ⟨⟨eachLine_nil,fun _ => ?_⟩,fun _ => ?_⟩
  · exact (hlength []).trans_lt (show 0<kMaxDedupCacheSize by decide)
  · exact ((hlength [one]).trans hone).trans_lt (show 1<kMaxDedupCacheSize by decide)

/-- The same line twice is shown once. -/
theorem repeats_suppressed_twice : SuppressesRepeats reader 0 [plainLine,plainLine] :=
  ((repeats_suppressed (fun _ => List.Perm.refl _) 0
    [plainLine,plainLine]).2 reader_forward (fewAlive_two _ _ _ _)).mpr
    (unconfused_of_titles 0 _ (by decide +kernel))

/-- A notification that never occurred is suppressed: its body has the zero
byte that stands in the title of another one. -/
theorem other_suppressed :
    ClockForward reader ∧ FewAlive reader 0 [([],longTitle),([],longBody)] ∧
      ¬SuppressesRepeats reader 0 [([],longTitle),([],longBody)] := by
  refine ⟨reader_forward,fewAlive_two _ _ _ _,?_⟩
  intro exact
  have hsuppressed : Suppressed reader (processAll reader 0 [([],longTitle)]) ([],longBody) := by
    unfold Suppressed
    decide +kernel
  obtain ⟨time,hmem,-⟩ := (exact [([],longTitle)] ([],longBody) [] rfl (by decide)).mp hsuppressed
  have hoccurred : occurrences reader 0 [([],longTitle)]=[(([97,0,98],[99]),0)] := by
    decide +kernel
  have hpair : pairOf reader ([],longBody)=([97],[98,0,99]) := by decide +kernel
  rw [hoccurred,hpair,List.mem_singleton] at hmem
  have hdifferent : (([97],[98,0,99]) : Bytes×Bytes)≠([97,0,98],[99]) := by decide
  exact hdifferent (congrArg Prod.fst hmem)

end Sequences

end Vinput.NotificationDedup
