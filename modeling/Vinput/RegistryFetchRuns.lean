import Vinput.InterleavedRuns
import Vinput.RegistryFetch

/-!
# What the registry cache serves

Every text that is put in the cache was answered by an address. A text that is
served is the one the cache holds afterwards, which is the last that was put in
over all fetches so far. Titles from the cache and titles from the network are
looked up in the same order and agree.
-/

namespace Vinput.RegistryFetchRuns

open InterleavedRuns RegistryFetch
open JsonTree (Json)
open ProcessLines (Bytes)

section Downloads

variable {urls : List String} {answers : ℕ → Answer} {content : Bytes} {last result : Result}

/-- An address has the text, no address before it has it, and the download is
not cancelled on the way. -/
def FirstAnswer (urls : List String) (answers : ℕ → Answer) (content : Bytes) : Prop :=
  ∃ index url, urls[index]?=some url ∧ url≠"" ∧ accepted url (answers index)=true ∧
    (answers index).body=content ∧ (answers index).cancelledBefore=false ∧
    ∀ earlier< index, ∀ other, urls[earlier]?=some other →
      (answers earlier).cancelledBefore=false ∧ (other≠"" →
        accepted other (answers earlier)=false ∧ (answers earlier).cancelled=false ∧
        (answers earlier).cancelledAfter=false)

/-- What a download returns is the first answer that counts. -/
theorem downloadText_first (h : downloadText last urls answers=(some content,result)) :
    FirstAnswer urls answers content := by
  induction urls generalizing last answers with
  | nil => cases h
  | cons url rest ih =>
    unfold downloadText at h
    dsimp only at h
    have hlater : ∀ before, (answers 0).cancelledBefore=false → (url≠"" →
        accepted url (answers 0)=false ∧ (answers 0).cancelled=false ∧
        (answers 0).cancelledAfter=false) →
        downloadText before rest (fun index => answers (index+1))=(some content,result) →
        FirstAnswer (url::rest) answers content := by
      intro before hcancel hfirst hrest
      obtain ⟨index,found,hget,hne,haccepted,hbody,hbefore,hearlier⟩ := ih hrest
      refine ⟨index+1,found,hget,hne,haccepted,hbody,hbefore,fun earlier hlt other hother => ?_⟩
      cases earlier with
      | zero =>
        have hsame : url=other := Option.some.inj hother
        exact ⟨hcancel,hsame ▸ hfirst⟩
      | succ earlier => exact hearlier earlier (by omega) other hother
    by_cases hcancel : (answers 0).cancelledBefore=true
    · rw [if_pos hcancel] at h
      cases h
    · rw [if_neg hcancel] at h
      have hcancel := Bool.eq_false_iff.mpr hcancel
      by_cases hempty : url=""
      · rw [if_pos hempty] at h
        exact hlater _ hcancel (fun hne => absurd hempty hne) h
      · rw [if_neg hempty] at h
        by_cases haccepted : accepted url (answers 0)=true
        · rw [if_pos haccepted] at h
          refine ⟨0,url,rfl,hempty,haccepted,Option.some.inj (Prod.ext_iff.mp h).1,hcancel,?_⟩
          exact fun earlier hlt => absurd hlt (Nat.not_lt_zero _)
        · rw [if_neg haccepted] at h
          by_cases hstop : ((answers 0).cancelled || (answers 0).cancelledAfter)=true
          · rw [if_pos hstop] at h
            cases h
          · rw [if_neg hstop] at h
            have hgoes := Bool.or_eq_false_iff.mp (Bool.eq_false_iff.mpr hstop)
            exact hlater _ hcancel (fun _ => ⟨Bool.eq_false_iff.mpr haccepted,hgoes⟩) h

/-- The first address may be passed by. -/
theorem FirstAnswer.of_cons {url : String} (h : FirstAnswer (url::urls) answers content)
    (hpassed : url="" ∨ accepted url (answers 0)=false) :
    FirstAnswer urls (fun index => answers (index+1)) content := by
  obtain ⟨index,found,hget,hne,haccepted,hbody,hbefore,hearlier⟩ := h
  cases index with
  | zero =>
    have hsame : url=found := Option.some.inj hget
    subst hsame
    rcases hpassed with hempty | hrefused
    · exact absurd hempty hne
    · rw [hrefused] at haccepted
      cases haccepted
  | succ index =>
    refine ⟨index,found,hget,hne,haccepted,hbody,hbefore,fun earlier hlt other hother => ?_⟩
    exact hearlier (earlier+1) (by omega) other hother

/-- The first answer is what is downloaded. -/
theorem downloadText_of_first (h : FirstAnswer urls answers content) :
    (downloadText last urls answers).1=some content := by
  induction urls generalizing last answers with
  | nil => obtain ⟨index,url,hget,-⟩ := h; cases hget
  | cons url rest ih =>
    have hfirst : (answers 0).cancelledBefore=false ∧ (url≠"" → accepted url (answers 0)=false →
        (answers 0).cancelled=false ∧ (answers 0).cancelledAfter=false) := by
      obtain ⟨index,found,hget,-,haccepted,-,hbefore,hearlier⟩ := h
      cases index with
      | zero =>
        have hsame : url=found := Option.some.inj hget
        subst hsame
        exact ⟨hbefore,fun _ hrefused => by rw [hrefused] at haccepted; cases haccepted⟩
      | succ index =>
        obtain ⟨hcancel,hpassed⟩ := hearlier 0 (Nat.succ_pos _) url rfl
        exact ⟨hcancel,fun hne _ => (hpassed hne).2⟩
    unfold downloadText
    dsimp only
    rw [if_neg (by rw [hfirst.1]; decide)]
    by_cases hempty : url=""
    · rw [if_pos hempty]
      exact ih (h.of_cons (.inl hempty))
    · rw [if_neg hempty]
      by_cases haccepted : accepted url (answers 0)=true
      · rw [if_pos haccepted]
        obtain ⟨index,found,hget,-,-,hbody,-,hearlier⟩ := h
        cases index with
        | zero => exact congrArg some hbody
        | succ index =>
          have hrefused := ((hearlier 0 (Nat.succ_pos _) url rfl).2 hempty).1
          rw [haccepted] at hrefused
          cases hrefused
      · have hrefused := Bool.eq_false_iff.mpr haccepted
        obtain ⟨hcancelled,hafter⟩ := hfirst.2 hempty hrefused
        rw [if_neg haccepted,hcancelled,hafter,if_neg (by decide)]
        exact ih (h.of_cons (.inr hrefused))

/-- A text is downloaded exactly where an address has it. -/
theorem downloadText_iff :
    (downloadText last urls answers).1=some content ↔ FirstAnswer urls answers content :=
  ⟨fun h => downloadText_first (Prod.ext h rfl),downloadText_of_first⟩

/-- A download returns nothing when no answer counts. -/
theorem downloadText_none_iff :
    (downloadText last urls answers).1=none ↔ ∀ content, ¬FirstAnswer urls answers content := by
  rw [Option.eq_none_iff_forall_ne_some]
  exact forall_congr' fun content => not_congr downloadText_iff

end Downloads

section Saves

/-- Texts that a fetch puts in the cache. -/
def savedBy (urls : List String) (name : String) (exchange : Exchange) : List (String×Bytes) :=
  match (downloadText {} urls exchange.answers).1,exchange.writeError with
  | some content,none => [(name,content)]
  | _,_ => []

/-- The cache after texts are put in, one after the other. -/
def replay (files : Files) (saves : List (String×Bytes)) : Files :=
  saves.foldl (fun files save => Function.update files save.1 (some save.2)) files

/-- The text that was put in last under a name, or what was there at the start. -/
def lastSaved (start : Files) (saves : List (String×Bytes)) (name : String) : Option Bytes :=
  (saves.reverse.lookup name).or (start name)

theorem replay_single (files : Files) (save : String×Bytes) :
    replay files [save]=Function.update files save.1 (some save.2) := rfl

theorem replay_append (files : Files) (first second : List (String×Bytes)) :
    replay files (first++second)=replay (replay files first) second := List.foldl_append

/-- The cache holds what was put in last. -/
theorem replay_eq (start : Files) (saves : List (String×Bytes)) :
    replay start saves=lastSaved start saves := by
  induction saves using List.reverseRecOn with
  | nil => rfl
  | append_singleton saves save ih =>
    funext name
    rw [replay_append,ih,replay_single]
    unfold lastSaved
    rw [List.reverse_append,List.reverse_singleton,List.singleton_append,List.lookup_cons]
    by_cases hname : name=save.1
    · rw [hname,beq_self_eq_true,Function.update_self]
      rfl
    · rw [beq_false_of_ne hname,Function.update_of_ne hname]

variable {cacheDir name : String} {urls : List String} {exchange : Exchange} {files : Files}

/-- A fetch saves what it downloaded. -/
theorem fetchText_files :
    (fetchText cacheDir urls name exchange files).1=replay files (savedBy urls name exchange) := by
  unfold fetchText savedBy
  rcases downloadText {} urls exchange.answers with ⟨_ | content,result⟩
  · dsimp only
    split <;> rfl
  · dsimp only
    cases exchange.writeError <;> rfl

/-- A text that is served is the one the cache holds afterwards. -/
theorem fetchText_served (h : (fetchText cacheDir urls name exchange files).2.ok=true) :
    (fetchText cacheDir urls name exchange files).1 name=
      some (fetchText cacheDir urls name exchange files).2.content := by
  unfold fetchText at h ⊢
  rcases hdownload : downloadText {} urls exchange.answers with ⟨_ | content,result⟩
  · rw [hdownload] at h
    dsimp only at h ⊢
    unfold loadCachedText at h ⊢
    cases hfile : files name with
    | none => rw [hfile] at h; cases h
    | some content =>
      cases hread : exchange.readError with
      | some error => rw [hfile,hread] at h; cases h
      | none => exact hfile
  · rw [hdownload] at h
    dsimp only at h ⊢
    cases hwrite : exchange.writeError with
    | some error => rw [hwrite] at h; cases h
    | none => exact Function.update_self ..

/-- The cache serves where nothing was put in. -/
theorem fetchText_usedCache (h : (fetchText cacheDir urls name exchange files).2.ok=true) :
    (fetchText cacheDir urls name exchange files).2.usedCache=true ↔
      savedBy urls name exchange=[] := by
  unfold fetchText at h ⊢
  unfold savedBy
  rcases hdownload : downloadText {} urls exchange.answers with ⟨_ | content,result⟩
  · rw [hdownload] at h
    dsimp only at h ⊢
    cases hload : loadCachedText cacheDir files name exchange.readError with
    | error error => rw [hload] at h; cases h
    | ok content => exact ⟨fun _ => rfl,fun _ => rfl⟩
  · rw [hdownload] at h
    dsimp only at h ⊢
    cases hwrite : exchange.writeError with
    | some error => rw [hwrite] at h; cases h
    | none => exact ⟨nofun,nofun⟩

/-- A text comes from the network where it is downloaded and can be written. -/
theorem fetchText_online {content : Bytes} :
    (fetchText cacheDir urls name exchange files).2.ok=true ∧
        (fetchText cacheDir urls name exchange files).2.usedCache=false ∧
        (fetchText cacheDir urls name exchange files).2.content=content ↔
      exchange.writeError=none ∧ (downloadText {} urls exchange.answers).1=some content := by
  unfold fetchText loadCachedText
  rcases downloadText {} urls exchange.answers with ⟨_ | found,result⟩
  · dsimp only
    cases files name <;> cases exchange.readError <;> simp
  · dsimp only
    cases exchange.writeError <;> simp

/-- A text comes from the cache where it is not downloaded and can be read. -/
theorem fetchText_cached {content : Bytes} :
    (fetchText cacheDir urls name exchange files).2.ok=true ∧
        (fetchText cacheDir urls name exchange files).2.usedCache=true ∧
        (fetchText cacheDir urls name exchange files).2.content=content ↔
      (downloadText {} urls exchange.answers).1=none ∧ exchange.readError=none ∧
        files name=some content := by
  unfold fetchText loadCachedText
  rcases downloadText {} urls exchange.answers with ⟨_ | found,result⟩
  · dsimp only
    cases files name <;> cases exchange.readError <;> simp
  · dsimp only
    cases exchange.writeError <;> simp

/-- A fetch fails for one of two reasons only. -/
theorem fetchText_failed : (fetchText cacheDir urls name exchange files).2.ok=false ↔
    (exchange.writeError≠none ∧ (downloadText {} urls exchange.answers).1≠none) ∨
    ((downloadText {} urls exchange.answers).1=none ∧
      (files name=none ∨ exchange.readError≠none)) := by
  unfold fetchText loadCachedText
  rcases downloadText {} urls exchange.answers with ⟨_ | content,result⟩
  · dsimp only
    cases files name <;> cases exchange.readError <;> simp
  · dsimp only
    cases exchange.writeError <;> simp

/-- A fetch that fails leaves the cache alone. -/
theorem savedBy_failed (h : (fetchText cacheDir urls name exchange files).2.ok=false) :
    savedBy urls name exchange=[] := by
  unfold savedBy
  rcases fetchText_failed.mp h with ⟨hwrite,-⟩ | ⟨hnone,-⟩
  · obtain ⟨error,herror⟩ := Option.ne_none_iff_exists'.mp hwrite
    rw [herror]
    cases (downloadText {} urls exchange.answers).1 <;> rfl
  · rw [hnone]

/-- What is saved is the first answer, under the name of the fetch. -/
theorem mem_savedBy {save : String×Bytes} (h : save∈savedBy urls name exchange) :
    save.1=name ∧ FirstAnswer urls exchange.answers save.2 := by
  unfold savedBy at h
  rcases hdownload : downloadText {} urls exchange.answers with ⟨_ | content,result⟩
  · rw [hdownload] at h
    cases h
  · rw [hdownload] at h
    dsimp only at h
    cases hwrite : exchange.writeError with
    | some error => rw [hwrite] at h; cases h
    | none =>
      rw [hwrite] at h
      rw [List.mem_singleton.mp h]
      exact ⟨rfl,downloadText_first hdownload⟩

end Saves

section Calls

/-- A call that fetches texts. -/
inductive Call where
  | registry (kind : Registry) (baseUrls : Option (List String)) (preferredLocale : String)
      (urls : List String) (exchanges : Exchanges)
  | titles (baseUrls : List String) (preferredLocale : String) (exchanges : Exchanges)

variable (cacheDir : String) (readJson : Bytes → Except String Json) (overrides : Option Bytes)

/-- The files after a call. -/
def step (files : Files) : Call → Files
  | .registry kind baseUrls preferredLocale urls exchanges =>
    (fetchRegistryText cacheDir baseUrls preferredLocale urls kind.name exchanges files).1
  | .titles baseUrls preferredLocale exchanges =>
    (fetchMergedI18nMap cacheDir readJson overrides baseUrls preferredLocale exchanges files).1

/-- Texts of the locales that are put in the cache. -/
def localeSaves (baseUrls : List String) (preferredLocale : String) (exchanges : Exchanges) :
    List (String×Bytes) :=
  savedBy (registryI18nUrls baseUrls preferredLocale) (i18nName preferredLocale)
      exchanges.preferred++
    if preferredLocale="en_US" then []
    else savedBy (registryI18nUrls baseUrls "en_US") (i18nName "en_US") exchanges.english

/-- Texts that a call puts in the cache. The texts of the locales are fetched
only where the registry text itself came from the network. -/
def Call.saves : Call → List (String×Bytes)
  | .registry kind baseUrls preferredLocale urls exchanges =>
    let saved := savedBy urls kind.name exchanges.text
    if saved=[] then []
    else saved++(baseUrls.elim [] fun baseUrls => localeSaves baseUrls preferredLocale exchanges)
  | .titles baseUrls preferredLocale exchanges => localeSaves baseUrls preferredLocale exchanges

/-- What a call asks for texts of the locales: the name in the cache, the addresses and the
answers. -/
def localeAsks (baseUrls : List String) (preferredLocale : String) (exchanges : Exchanges) :
    List (String×List String×Exchange) :=
  [(i18nName preferredLocale,registryI18nUrls baseUrls preferredLocale,exchanges.preferred),
    (i18nName "en_US",registryI18nUrls baseUrls "en_US",exchanges.english)]

/-- What a call asks for. -/
def Call.asks : Call → List (String×List String×Exchange)
  | .registry kind baseUrls preferredLocale urls exchanges =>
    (kind.name,urls,exchanges.text)::
      baseUrls.elim [] fun baseUrls => localeAsks baseUrls preferredLocale exchanges
  | .titles baseUrls preferredLocale exchanges => localeAsks baseUrls preferredLocale exchanges

/-- The text is what the first address that has it answered, of those that the call asks. -/
def Answered (asks : List (String×List String×Exchange)) (save : String×Bytes) : Prop :=
  ∃ ask∈asks, ask.1=save.1 ∧ FirstAnswer ask.2.1 ask.2.2.answers save.2

variable {cacheDir readJson overrides} {files : Files} {baseUrls : List String}
  {preferredLocale : String} {exchanges : Exchanges}

/-- Without addresses nothing is saved. -/
theorem savedBy_nil (name : String) (exchange : Exchange) : savedBy [] name exchange=[] := rfl

/-- A refreshed locale saves what it downloaded. -/
theorem refreshLocaleCache_files (locale : String) (exchange : Exchange) :
    (refreshLocaleCache cacheDir baseUrls locale exchange files).1=
      replay files (savedBy (registryI18nUrls baseUrls locale) (i18nName locale) exchange) := by
  unfold refreshLocaleCache
  dsimp only
  by_cases hurls : registryI18nUrls baseUrls locale=[]
  · rw [if_pos hurls,hurls,savedBy_nil]
    rfl
  · rw [if_neg hurls]
    exact fetchText_files

/-- A fetched map saves what it downloaded. -/
theorem fetchI18nMap_files (locale : String) (exchange : Exchange) :
    (fetchI18nMap cacheDir readJson locale (registryI18nUrls baseUrls locale) exchange files).1=
      replay files (savedBy (registryI18nUrls baseUrls locale) (i18nName locale) exchange) := by
  unfold fetchI18nMap
  by_cases hurls : registryI18nUrls baseUrls locale=[]
  · rw [if_pos hurls,hurls,savedBy_nil]
    rfl
  · rw [if_neg hurls,←@fetchText_files cacheDir]
    dsimp only
    split <;> rfl

/-- A refresh saves the maps of its locales. -/
theorem refresh_files :
    (refreshI18nAfterOnlineFetch cacheDir (some baseUrls) preferredLocale exchanges files).1=
      replay files (localeSaves baseUrls preferredLocale exchanges) := by
  unfold refreshI18nAfterOnlineFetch localeSaves
  dsimp only
  by_cases henglish : preferredLocale="en_US"
  · rw [if_pos henglish,if_pos henglish,List.append_nil]
    exact refreshLocaleCache_files ..
  · rw [if_neg henglish,if_neg henglish,replay_append]
    dsimp only
    rw [refreshLocaleCache_files,refreshLocaleCache_files]

theorem fetchMerged_files :
    (fetchMergedI18nMap cacheDir readJson overrides baseUrls preferredLocale exchanges files).1=
      replay files (localeSaves baseUrls preferredLocale exchanges) := by
  have hfirst : (if registryI18nUrls baseUrls preferredLocale=[] then (files,([],""))
      else fetchI18nMap cacheDir readJson preferredLocale
        (registryI18nUrls baseUrls preferredLocale) exchanges.preferred files).1=replay files
          (savedBy (registryI18nUrls baseUrls preferredLocale) (i18nName preferredLocale)
            exchanges.preferred) := by
    by_cases hurls : registryI18nUrls baseUrls preferredLocale=[]
    · rw [if_pos hurls,hurls,savedBy_nil]
      rfl
    · rw [if_neg hurls]
      exact fetchI18nMap_files ..
  unfold fetchMergedI18nMap localeSaves
  dsimp only
  by_cases henglish : preferredLocale="en_US"
  · rw [if_pos henglish,if_pos henglish,List.append_nil]
    exact hfirst
  · rw [if_neg henglish,if_neg henglish,replay_append,←hfirst]
    exact fetchI18nMap_files ..

/-- Fetching a registry saves the registry and the maps. -/
theorem registry_files {kind : Registry} {baseUrls : Option (List String)}
    {urls : List String} :
    (fetchRegistryText cacheDir baseUrls preferredLocale urls kind.name exchanges files).1=
      replay files (Call.registry kind baseUrls preferredLocale urls exchanges).saves := by
  have hfiles := @fetchText_files cacheDir kind.name urls exchanges.text files
  unfold fetchRegistryText Call.saves
  dsimp only
  by_cases hok : (fetchText cacheDir urls kind.name exchanges.text files).2.ok=true
  · have hcache := fetchText_usedCache hok
    rw [if_neg (by rw [hok]; decide)]
    by_cases hsaved : savedBy urls kind.name exchanges.text=[]
    · rw [if_pos (hcache.mpr hsaved),if_pos hsaved,hfiles,hsaved]
    · rw [if_neg (fun h => hsaved (hcache.mp h)),if_neg hsaved,replay_append,←hfiles]
      cases baseUrls with
      | none => rfl
      | some baseUrls => exact refresh_files
  · have hfailed := Bool.eq_false_iff.mpr hok
    have hsaved : savedBy urls kind.name exchanges.text=[] := savedBy_failed hfailed
    rw [if_pos hfailed,if_pos hsaved,hfiles,hsaved]

/-- Every call changes the files by its saves only. -/
theorem step_files (files : Files) (call : Call) :
    step cacheDir readJson overrides files call=replay files call.saves := by
  cases call with
  | registry => exact registry_files
  | titles => exact fetchMerged_files

/-- The cache after a run holds what was put in last. -/
theorem run_files (start : Files) (calls : List Call) :
    run (step cacheDir readJson overrides) start calls=
      lastSaved start (calls.flatMap Call.saves) := by
  rw [←replay_eq]
  induction calls generalizing start with
  | nil => rfl
  | cons call rest ih => rw [run_cons,ih,step_files,List.flatMap_cons,replay_append]

end Calls

section Served

variable (cacheDir : String) (readJson : Bytes → Except String Json) (overrides : Option Bytes)

theorem i18nName_injective {first second : String} (h : i18nName first=i18nName second) :
    first=second := by
  have hlist := congrArg String.toList h
  unfold i18nName at hlist
  rw [String.toList_append,String.toList_append,String.toList_append,String.toList_append] at hlist
  exact String.toList_injective (List.append_cancel_left (List.append_cancel_right hlist))

/-- A registry is kept beside the texts of the locales. -/
theorem registry_name_ne (kind : Registry) (locale : String) :
    kind.name≠i18nName locale := by
  intro h
  have hlist := congrArg String.toList h
  unfold i18nName at hlist
  rw [String.toList_append,String.toList_append] at hlist
  have hhead := congrArg List.head? hlist
  cases kind <;> cases hhead

/-- What is saved for a locale was answered to its request. -/
theorem localeSaves_answered {baseUrls : List String} {preferredLocale : String}
    {exchanges : Exchanges} {save : String×Bytes}
    (h : save∈localeSaves baseUrls preferredLocale exchanges) :
    Answered (localeAsks baseUrls preferredLocale exchanges) save := by
  unfold localeSaves at h
  rcases List.mem_append.mp h with hpreferred | henglish
  · obtain ⟨hname,hfirst⟩ := mem_savedBy hpreferred
    exact ⟨_,List.mem_cons_self,hname.symm,hfirst⟩
  · split at henglish
    · cases henglish
    · obtain ⟨hname,hfirst⟩ := mem_savedBy henglish
      exact ⟨_,List.mem_cons_of_mem _ List.mem_cons_self,hname.symm,hfirst⟩

/-- Every text that a call puts in was answered to what it asked. -/
theorem saves_answered {call : Call} {save : String×Bytes} (h : save∈call.saves) :
    Answered call.asks save := by
  cases call with
  | registry kind baseUrls preferredLocale urls exchanges =>
    dsimp only [Call.saves] at h
    split at h
    · cases h
    · rcases List.mem_append.mp h with hown | hlocale
      · obtain ⟨hname,hfirst⟩ := mem_savedBy hown
        exact ⟨_,List.mem_cons_self,hname.symm,hfirst⟩
      · cases baseUrls with
        | none => cases hlocale
        | some baseUrls =>
          obtain ⟨ask,hask,hanswered⟩ := localeSaves_answered hlocale
          exact ⟨ask,List.mem_cons_of_mem _ hask,hanswered⟩
  | titles baseUrls preferredLocale exchanges => exact localeSaves_answered h

/-- What is put in under other names is of no account. -/
theorem lastSaved_others {start : Files} {saves later : List (String×Bytes)} {name : String}
    (h : ∀ save∈later, save.1≠name) :
    lastSaved start (saves++later) name=lastSaved start saves name := by
  have hnone : later.reverse.lookup name=none := by
    rw [List.lookup_eq_none_iff]
    intro save hsave
    exact bne_iff_ne.mpr (h save (List.mem_reverse.mp hsave)).symm
  unfold lastSaved
  rw [List.reverse_append,List.lookup_append,hnone,Option.none_or]

variable {kind : Registry} {baseUrls : Option (List String)} {preferredLocale : String}
  {urls : List String} {exchanges : Exchanges}

/-- The text of a call stays what it put in, whatever else it puts in. -/
theorem registry_kept {files : Files} :
    (fetchRegistryText cacheDir baseUrls preferredLocale urls kind.name exchanges files).1
      kind.name=(fetchText cacheDir urls kind.name exchanges.text files).1 kind.name := by
  rw [registry_files,fetchText_files]
  dsimp only [Call.saves]
  by_cases hsaved : savedBy urls kind.name exchanges.text=[]
  · rw [if_pos hsaved,hsaved]
  · rw [if_neg hsaved,replay_append,replay_eq]
    refine @lastSaved_others _ [] _ _ fun save hsave => ?_
    cases baseUrls with
    | none => cases hsave
    | some baseUrls =>
      obtain ⟨ask,hask,hname,-⟩ := localeSaves_answered hsave
      rw [←hname]
      rcases List.mem_cons.mp hask with rfl | henglish
      · exact (registry_name_ne kind _).symm
      · rw [List.mem_singleton.mp henglish]
        exact (registry_name_ne kind _).symm

/-- Whatever texts have been fetched before: a registry text comes from the
network exactly where some address has it and it can be written, and is then the
answer of the first such address; it comes from the cache exactly where no
address has it and it can be read, and is then the one put in last or the one
that was there at the start. What is served is what the cache holds. In all
other cases the call fails, and changes nothing. Every text in the cache was
answered to a call that asked for it. -/
theorem registry_served (start : Files) (calls : List Call) (kind : Registry)
    (baseUrls : Option (List String)) (preferredLocale : String) (urls : List String)
    (exchanges : Exchanges) :
    let files := run (step cacheDir readJson overrides) start calls
    let result := fetchRegistryText cacheDir baseUrls preferredLocale urls kind.name exchanges files
    let fetched := result.2.1
    let cached := lastSaved start (calls.flatMap Call.saves) kind.name
    let answered := FirstAnswer urls exchanges.text.answers
    (∀ content, fetched.ok=true ∧ fetched.usedCache=false ∧ fetched.content=content ↔
      exchanges.text.writeError=none ∧ answered content) ∧
    (∀ content, fetched.ok=true ∧ fetched.usedCache=true ∧ fetched.content=content ↔
      (∀ other, ¬answered other) ∧ exchanges.text.readError=none ∧ cached=some content) ∧
    (fetched.ok=false ↔ (exchanges.text.writeError≠none ∧ ∃ content, answered content) ∨
      ((∀ content, ¬answered content) ∧ (cached=none ∨ exchanges.text.readError≠none))) ∧
    (fetched.ok=true → result.1 kind.name=some fetched.content) ∧
    (fetched.ok=false → result.1=files) ∧
    ∀ call∈calls, ∀ save∈call.saves, Answered call.asks save := by
  intro files result fetched cached answered
  have hcached : cached=files kind.name := by
    dsimp only [cached,files]
    rw [run_files start calls]
  have hfetched : fetched=(fetchText cacheDir urls kind.name exchanges.text files).2 := by
    dsimp only [fetched,result,fetchRegistryText]
    split
    · rfl
    · split <;> rfl
  rw [hfetched,hcached]
  refine ⟨fun content => ?_,fun content => ?_,?_,fun hok => ?_,fun hfailed => ?_,
    fun call _ save => saves_answered⟩
  · rw [fetchText_online,downloadText_iff]
  · rw [fetchText_cached,downloadText_none_iff]
  · have hsome : (downloadText {} urls exchanges.text.answers).1≠none ↔
        ∃ content, answered content := (not_congr downloadText_none_iff).trans not_forall_not
    rw [fetchText_failed,downloadText_none_iff,hsome]
  · exact (registry_kept cacheDir).trans (fetchText_served hok)
  · dsimp only [result,fetchRegistryText]
    rw [hfailed,fetchText_files,savedBy_failed hfailed]
    rfl

end Served

section Titles

variable (cacheDir : String) (readJson : Bytes → Except String Json)

/-- A text in a file of texts, if there is such a file and it can be read. -/
def titleIn (content : Option Bytes) (key : String) : Option String :=
  content.bind fun content => (parseI18nJson readJson content).1.lookup key

/-- The user's texts come before those of the preferred locale, and these before
the English ones. -/
def precedence (overrides preferred english : Option Bytes) (key : String) : Option String :=
  (titleIn readJson overrides key).or
    ((titleIn readJson preferred key).or (titleIn readJson english key))

variable {cacheDir readJson} {overrides : Option Bytes} {map : I18nMap} {key : String}
  {baseUrls : List String} {preferredLocale : String} {exchanges : Exchanges} {files : Files}

/-- A title of a file that was loaded. -/
theorem loadI18nFile_lookup (path : String) (content : Option Bytes) :
    (loadI18nFile readJson path content).1.lookup key=titleIn readJson content key := by
  cases content <;> rfl

/-- Titles that are assigned come first. -/
theorem lookup_assign (entries map : I18nMap) :
    (entries.reverse.foldl assign map).lookup key=(entries.lookup key).or (map.lookup key) := by
  have happend : entries.reverse.foldl assign map=entries++map := by
    induction entries with
    | nil => rfl
    | cons entry rest ih => rw [List.reverse_cons,List.foldl_append,ih]; rfl
  rw [happend,List.lookup_append]

/-- Titles that are emplaced come last. -/
theorem lookup_emplace (entries map : I18nMap) :
    (entries.foldl emplace map).lookup key=(map.lookup key).or (entries.lookup key) := by
  induction entries generalizing map with
  | nil => exact (Option.or_none).symm
  | cons entry rest ih =>
    rw [List.foldl_cons,ih]
    unfold emplace
    by_cases hkey : key=entry.1
    · have hfound : (entry::rest).lookup key=some entry.2 := by
        rw [List.lookup_cons,hkey,beq_self_eq_true]
      rw [hfound]
      by_cases hthere : (map.lookup entry.1).isSome=true
      · obtain ⟨text,htext⟩ := Option.isSome_iff_exists.mp hthere
        rw [if_pos hthere,hkey,htext]
        rfl
      · rw [if_neg hthere,List.lookup_cons,hkey,beq_self_eq_true,
          Option.not_isSome_iff_eq_none.mp hthere]
        rfl
    · have hpast : (entry::rest).lookup key=rest.lookup key := by
        rw [List.lookup_cons,beq_false_of_ne hkey]
      rw [hpast]
      by_cases hthere : (map.lookup entry.1).isSome=true
      · rw [if_pos hthere]
      · rw [if_neg hthere,List.lookup_cons,beq_false_of_ne hkey]

theorem lookup_overrides : (applyLocalI18nOverrides readJson overrides map).lookup key=
    (titleIn readJson overrides key).or (map.lookup key) := by
  unfold applyLocalI18nOverrides
  rw [lookup_assign,loadI18nFile_lookup]

/-- Titles from the cache. -/
theorem loadMerged_lookup (files : Files) :
    (loadMergedCachedI18nMap cacheDir readJson overrides preferredLocale files).1.lookup key=
      precedence readJson overrides (files (i18nName preferredLocale)) (files (i18nName "en_US"))
        key := by
  unfold loadMergedCachedI18nMap precedence
  dsimp only
  rw [lookup_overrides]
  congr 1
  by_cases henglish : preferredLocale="en_US"
  · rw [if_pos henglish,henglish,loadI18nFile_lookup,Option.or_self]
  · rw [if_neg henglish]
    dsimp only
    rw [←loadI18nFile_lookup (cachePath cacheDir (i18nName preferredLocale)),
      ←loadI18nFile_lookup (cachePath cacheDir (i18nName "en_US"))]
    generalize (loadI18nFile readJson (cachePath cacheDir (i18nName preferredLocale))
      (files (i18nName preferredLocale))).1=primary
    by_cases hempty : primary=[]
    · rw [if_pos hempty,hempty]
      rfl
    · rw [if_neg hempty,lookup_emplace]

/-- A fetch in which the disk does what it is asked to. -/
def Smooth (exchange : Exchange) : Prop := exchange.writeError=none ∧ exchange.readError=none

/-- A map that was fetched has the titles of the file afterwards. -/
theorem fetchI18nMap_lookup {locale : String} {exchange : Exchange} (hsmooth : Smooth exchange)
    (hurls : registryI18nUrls baseUrls locale≠[]) :
    (fetchI18nMap cacheDir readJson locale (registryI18nUrls baseUrls locale) exchange
      files).2.1.lookup key=titleIn readJson
        ((fetchI18nMap cacheDir readJson locale (registryI18nUrls baseUrls locale) exchange
          files).1 (i18nName locale)) key := by
  unfold fetchI18nMap
  rw [if_neg hurls]
  dsimp only
  by_cases hok : (fetchText cacheDir (registryI18nUrls baseUrls locale) (i18nName locale) exchange
      files).2.ok=true
  · rw [if_neg (by rw [hok]; decide)]
    dsimp only
    rw [fetchText_served hok]
    rfl
  · have hfailed := Bool.eq_false_iff.mpr hok
    have hnone : files (i18nName locale)=none := by
      rcases fetchText_failed.mp hfailed with ⟨hwrite,-⟩ | ⟨-,hnone | hread⟩
      · exact absurd hsmooth.1 hwrite
      · exact hnone
      · exact absurd hsmooth.2 hread
    rw [if_pos hfailed]
    dsimp only
    rw [fetchText_files,savedBy_failed hfailed]
    show _=titleIn readJson (files (i18nName locale)) key
    rw [hnone]
    rfl

theorem resolve_ne_nil {suffix : String} (h : ∃ base∈baseUrls, base≠"") :
    resolveRegistryUrlsForPath suffix [] baseUrls≠[] := by
  induction baseUrls with
  | nil => obtain ⟨base,hbase,-⟩ := h; cases hbase
  | cons base rest ih =>
    unfold resolveRegistryUrlsForPath
    by_cases hempty : base=""
    · rw [if_pos hempty]
      refine ih ?_
      obtain ⟨other,hother,hne⟩ := h
      rcases List.mem_cons.mp hother with hsame | hrest
      · exact absurd (hsame.trans hempty) hne
      · exact ⟨other,hrest,hne⟩
    · rw [if_neg hempty]
      dsimp only
      rw [if_neg List.not_mem_nil]
      exact List.cons_ne_nil _ _

/-- A fetch for one locale leaves the texts of the others alone. -/
theorem fetchI18nMap_frame {locale other : String} {exchange : Exchange} (h : other≠locale) :
    (fetchI18nMap cacheDir readJson locale (registryI18nUrls baseUrls locale) exchange files).1
      (i18nName other)=files (i18nName other) := by
  rw [fetchI18nMap_files,replay_eq]
  have hothers : ∀ save∈savedBy (registryI18nUrls baseUrls locale) (i18nName locale) exchange,
      save.1≠i18nName other := by
    intro save hsave hname
    exact h (i18nName_injective (hname.symm.trans (mem_savedBy hsave).1))
  exact @lastSaved_others files [] _ _ hothers

/-- Titles from the network. -/
theorem fetchMerged_lookup (hbase : ∃ base∈baseUrls, base≠"")
    (hpreferred : Smooth exchanges.preferred) (henglish : Smooth exchanges.english) :
    let fetched :=
      fetchMergedI18nMap cacheDir readJson overrides baseUrls preferredLocale exchanges files
    fetched.2.1.lookup key=precedence readJson overrides
      (fetched.1 (i18nName preferredLocale)) (fetched.1 (i18nName "en_US")) key := by
  have hurls : ∀ locale, registryI18nUrls baseUrls locale≠[] := fun _ => resolve_ne_nil hbase
  unfold fetchMergedI18nMap precedence
  dsimp only
  rw [if_neg (hurls preferredLocale)]
  by_cases hlocale : preferredLocale="en_US"
  · rw [if_pos hlocale,lookup_overrides,fetchI18nMap_lookup hpreferred (hurls _),hlocale,
      Option.or_self]
  · rw [if_neg hlocale]
    dsimp only
    rw [lookup_overrides,lookup_emplace,fetchI18nMap_lookup hpreferred (hurls _),
      fetchI18nMap_lookup henglish (hurls _),fetchI18nMap_frame hlocale]

/-- Titles have one order of precedence. From the cache, after whatever texts
have been fetched, they are looked up in the texts that were put in last; and a
fetch in which the disk does what it is asked to gives the titles that the cache
gives after it, also where the network fails. -/
theorem titles_agree (start : Files) (calls : List Call) (hbase : ∃ base∈baseUrls, base≠"")
    (hpreferred : Smooth exchanges.preferred) (henglish : Smooth exchanges.english) :
    let files := run (step cacheDir readJson overrides) start calls
    let saved := lastSaved start (calls.flatMap Call.saves)
    let fetched :=
      fetchMergedI18nMap cacheDir readJson overrides baseUrls preferredLocale exchanges files
    (∀ locale key,
      (loadMergedCachedI18nMap cacheDir readJson overrides locale files).1.lookup key=
        precedence readJson overrides (saved (i18nName locale)) (saved (i18nName "en_US")) key) ∧
    ∀ key fallback, lookupI18n fetched.2.1 key fallback=
      lookupI18n (loadMergedCachedI18nMap cacheDir readJson overrides preferredLocale fetched.1).1
        key fallback := by
  refine ⟨fun locale key => ?_,fun key fallback => ?_⟩
  · rw [loadMerged_lookup,run_files]
  · unfold lookupI18n
    rw [fetchMerged_lookup hbase hpreferred henglish,loadMerged_lookup]

/-- The preferred locale from the network, the English texts from the cache. -/
def someExchanges : Exchanges where
  text := ⟨fun _ => {},none,none⟩
  preferred := ⟨fun _ => {statusCode := 200, body := [1]},none,none⟩
  english := ⟨fun _ => {statusCode := 404},none,none⟩

/-- Every content is read as the same tree. -/
def someJson (content : Bytes) : Except String Json :=
  if content=[1] then .ok (.object [("a.title",.text "甲")])
  else .ok (.object [("a.title",.text "A"),("b.title",.text "B")])

/-- Without a network there are no titles. -/
theorem titles_agree_offline :
    let fetched := fetchMergedI18nMap "/cache" someJson none ["https://registry/"] "zh_CN"
      someExchanges fun name => if name=i18nName "en_US" then some [2] else none
    let cached := (loadMergedCachedI18nMap "/cache" someJson none "zh_CN" fetched.1).1
    lookupI18n cached "a.title" "a"="甲" ∧ lookupI18n cached "b.title" "b"="B" ∧
      lookupI18n cached "c.title" "c"="c" := by
  intro fetched cached
  have hagree := (@titles_agree "/cache" someJson none ["https://registry/"] "zh_CN" someExchanges
    (fun name => if name=i18nName "en_US" then some [2] else none) []
    ⟨_,List.mem_cons_self,by decide⟩ ⟨rfl,rfl⟩ ⟨rfl,rfl⟩).2
  refine ⟨(hagree "a.title" "a").symm.trans ?_,(hagree "b.title" "b").symm.trans ?_,
    (hagree "c.title" "c").symm.trans ?_⟩ <;> decide +kernel

end Titles

end Vinput.RegistryFetchRuns
