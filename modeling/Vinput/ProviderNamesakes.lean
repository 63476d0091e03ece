import Vinput.CoreConfigNormalize

/-!
# Providers that share an identity

Normalisation takes an identity before it looks at the command, so an entry
without a command hides the entries behind it. A provider is lost, and the
reference to it cleared, just where such an entry comes first.
-/

namespace Vinput.ProviderNamesakes

open CoreConfigNormalize CoreConfigTypes FirstEntries

section Lookup

/-- A provider that can be run. -/
def usable : AsrProvider → Bool
  | .localProvider _ => true
  | .commandProvider provider => decide (provider.command≠"")

/-- The first provider of an identity. -/
def firstOf (providers : List AsrProvider) (id : String) : Option AsrProvider :=
  providers.find? fun provider => decide (asrProviderId provider=id)

/-- The first provider of an identity that can be run. -/
def firstUsable (providers : List AsrProvider) (id : String) : Option AsrProvider :=
  providers.find? fun provider => decide (asrProviderId provider=id) && usable provider

/-- The first usable provider of an identity is the one that is kept. -/
def Carried (config : CoreConfig) (id : String) : Prop :=
  ∀ provider, firstUsable config.asr.providers id=some provider →
    ∃ kept, finishAsrProvider provider=some kept ∧
      firstOf (normalizeCoreConfig config).asr.providers id=some kept

/-- The reference is cleared only if it names no usable provider. -/
def ActiveKept (config : CoreConfig) : Prop :=
  config.asr.activeProvider≠"" → (normalizeCoreConfig config).asr.activeProvider="" →
    firstUsable config.asr.providers config.asr.activeProvider=none

/-- No entry stands before the first usable one of an identity, which is not empty. -/
def Leads (providers : List AsrProvider) (id : String) : Prop :=
  ∀ provider, firstUsable providers id=some provider →
    id≠"" ∧ firstOf providers id=some provider

variable {config : CoreConfig} {providers : List AsrProvider} {id : String}
  {provider first : AsrProvider}

/-- The first usable provider of an identity is usable and has it. -/
theorem firstUsable_spec (h : firstUsable providers id=some provider) :
    asrProviderId provider=id ∧ usable provider=true := by
  simpa using List.find?_some h

/-- Providers are finished exactly if they are usable. -/
theorem finish_isSome : (finishAsrProvider provider).isSome=true ↔ usable provider=true := by
  cases provider with
  | localProvider settings => simp [finishAsrProvider,usable]
  | commandProvider settings =>
    by_cases hcommand : settings.command="" <;> simp [finishAsrProvider,usable,hcommand]

/-- The first provider is the first usable one if it is usable. -/
theorem firstUsable_of_firstOf (h : firstOf providers id=some first)
    (husable : usable first=true) : firstUsable providers id=some first := by
  induction providers with
  | nil => simp [firstOf] at h
  | cons entry rest ih =>
    by_cases hentry : asrProviderId entry=id
    · rw [firstOf,List.find?_cons_of_pos (by simpa using hentry)] at h
      have hfirst : entry=first := Option.some.inj h
      rw [hfirst] at hentry ⊢
      exact List.find?_cons_of_pos (by simp [hentry,husable])
    · rw [firstOf,List.find?_cons_of_neg (by simpa using hentry)] at h
      rw [firstUsable,List.find?_cons_of_neg (by simp [hentry])]
      exact ih h

/-- Named entries are looked up as before. -/
theorem find_named :
    (providers.filterMap (named asrProviderId)).find?
        (fun provider => decide (asrProviderId provider=id))=
      if id="" then none else firstOf providers id := by
  induction providers with
  | nil => simp [firstOf]
  | cons entry rest ih =>
    by_cases hempty : asrProviderId entry=""
    · rw [List.filterMap_cons_none (by simp [named,hempty]),ih]
      by_cases hid : id=""
      · rw [if_pos hid,if_pos hid]
      · rw [if_neg hid,if_neg hid,firstOf,firstOf,List.find?_cons_of_neg]
        simpa [hempty] using Ne.symm hid
    · rw [List.filterMap_cons_some (by simp [named,hempty]; rfl)]
      by_cases hentry : asrProviderId entry=id
      · rw [List.find?_cons_of_pos (by simpa using hentry),if_neg (by rwa [← hentry]),firstOf,
          List.find?_cons_of_pos (by simpa using hentry)]
      · rw [List.find?_cons_of_neg (by simpa using hentry),ih,firstOf,firstOf,
          List.find?_cons_of_neg (by simpa using hentry)]

/-- What normalisation keeps under an identity. -/
theorem firstOf_normalized :
    firstOf (normalizeCoreConfig config).asr.providers id=
      if id="" then none else (firstOf config.asr.providers id).bind finishAsrProvider := by
  have hkept : firstOf (normalizeCoreConfig config).asr.providers id=
      ((config.asr.providers.filterMap (named asrProviderId)).find?
        fun provider => decide (asrProviderId provider=id)).bind finishAsrProvider :=
    keepFirst_find stable_asrProvider.named List.not_mem_nil
  rw [hkept,find_named]
  split_ifs <;> rfl

end Lookup

section Namesakes

variable {config : CoreConfig} {id : String} {provider first : AsrProvider}

/-- An identity that is used has a first provider. -/
theorem firstOf_of_usable {providers : List AsrProvider}
    (h : firstUsable providers id=some provider) : ∃ first, firstOf providers id=some first := by
  have hmem := List.mem_of_find?_eq_some h
  refine Option.isSome_iff_exists.mp (List.find?_isSome.mpr ⟨provider,hmem,?_⟩)
  simpa using (firstUsable_spec h).1

/-- Something is kept under an identity just if its first usable provider leads. -/
theorem kept_iff_leads (h : firstUsable config.asr.providers id=some provider) :
    (∃ kept, firstOf (normalizeCoreConfig config).asr.providers id=some kept) ↔
      id≠"" ∧ firstOf config.asr.providers id=some provider := by
  rw [firstOf_normalized]
  by_cases hid : id=""
  · simp [hid]
  rw [if_neg hid]
  obtain ⟨first,hfirst⟩ := firstOf_of_usable h
  rw [hfirst,Option.bind_some,← Option.isSome_iff_exists,finish_isSome]
  constructor
  · intro husable
    rw [← firstUsable_of_firstOf hfirst husable]
    exact ⟨hid,h⟩
  · rintro ⟨_,hsame⟩
    rw [Option.some.inj hsame]
    exact (firstUsable_spec h).2

/-- An identity is carried on when a usable provider leads. -/
theorem carried_iff_leads : Carried config id ↔ Leads config.asr.providers id := by
  constructor
  · intro h provider hprovider
    obtain ⟨kept,_,hkept⟩ := h provider hprovider
    exact (kept_iff_leads hprovider).mp ⟨kept,hkept⟩
  · intro h provider hprovider
    obtain ⟨hid,hfirst⟩ := h provider hprovider
    obtain ⟨kept,hkept⟩ := (kept_iff_leads hprovider).mpr ⟨hid,hfirst⟩
    refine ⟨kept,?_,hkept⟩
    rw [firstOf_normalized,if_neg hid,hfirst,Option.bind_some] at hkept
    exact hkept

/-- The reference is cleared when nothing is kept under it. -/
theorem active_cleared (hactive : config.asr.activeProvider≠"") :
    (normalizeCoreConfig config).asr.activeProvider="" ↔
      firstOf (normalizeCoreConfig config).asr.providers config.asr.activeProvider=none := by
  have hfind : findAsrProvider (normalizeCoreConfig config).asr.providers
      config.asr.activeProvider=
        firstOf (normalizeCoreConfig config).asr.providers config.asr.activeProvider :=
    if_neg hactive
  have hcleared : (normalizeCoreConfig config).asr.activeProvider=
      clearReference config.asr.activeProvider
        (findAsrProvider (normalizeCoreConfig config).asr.providers
          config.asr.activeProvider).isSome := rfl
  rw [hcleared,hfind,clearReference]
  cases firstOf (normalizeCoreConfig config).asr.providers config.asr.activeProvider with
  | none => simp
  | some kept => simp [hactive]

theorem activeKept_iff_leads :
    ActiveKept config ↔
      (config.asr.activeProvider≠"" → Leads config.asr.providers config.asr.activeProvider) := by
  constructor
  · intro h hactive provider hprovider
    refine (kept_iff_leads hprovider).mp (Option.ne_none_iff_exists'.mp fun hnone => ?_)
    have hlost := h hactive ((active_cleared hactive).mpr hnone)
    simp [hlost] at hprovider
  · intro h hactive hcleared
    by_contra husable
    obtain ⟨provider,hprovider⟩ := Option.ne_none_iff_exists'.mp husable
    obtain ⟨kept,hkept⟩ := (kept_iff_leads hprovider).mpr (h hactive provider hprovider)
    rw [active_cleared hactive,hkept] at hcleared
    cases hcleared

/-- No provider is lost, and the reference to it is not, exactly if the first
usable provider of every identity leads; each identity and the reference
depend on their own providers alone. -/
theorem namesakes_kept (config : CoreConfig) :
    ((∀ id, Carried config id) ∧ ActiveKept config ↔
        ∀ id, Leads config.asr.providers id) ∧
      (∀ id, Carried config id ↔ Leads config.asr.providers id) ∧
      (ActiveKept config ↔
        (config.asr.activeProvider≠"" → Leads config.asr.providers config.asr.activeProvider)) := by
  refine ⟨?_,fun _ => carried_iff_leads,activeKept_iff_leads⟩
  constructor
  · rintro ⟨h,_⟩ id
    exact carried_iff_leads.mp (h id)
  · intro h
    exact ⟨fun id => carried_iff_leads.mpr (h id),activeKept_iff_leads.mpr fun _ => h _⟩

/-- An entry without a command in front of a local provider, which is used. -/
def hidden : CoreConfig :=
  {asr := {activeProvider := "x"
           providers := [.commandProvider {id := "x"},.localProvider {id := "x"}]}}

/-- A provider behind an unusable namesake is lost. -/
theorem hidden_lost : ¬Carried hidden "x" ∧ ¬ActiveKept hidden := by
  have husable : firstUsable hidden.asr.providers "x"=some (.localProvider {id := "x"}) := by rfl
  have hlost : firstOf (normalizeCoreConfig hidden).asr.providers "x"=none := by
    rw [firstOf_normalized]
    rfl
  constructor
  · intro h
    obtain ⟨kept,_,hkept⟩ := h _ husable
    simp [hlost] at hkept
  · intro h
    have hnone := h (by decide) ((active_cleared (by decide)).mpr hlost)
    have hactive : hidden.asr.activeProvider="x" := rfl
    simp [hactive,husable] at hnone

end Namesakes

end Vinput.ProviderNamesakes
