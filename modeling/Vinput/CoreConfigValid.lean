import Vinput.CoreConfigNormalize
import Mathlib.Order.WithBot

/-!
# Normal configurations are valid

Validation is written apart from normalisation. Each of its checks finds in
a normal configuration what normalisation has left there: named entries
under distinct identities, command providers with a command, valid scenes
with both builtin ones, and references that name an entry.
-/

namespace Vinput.CoreConfigValid

open CoreConfigTypes CoreConfigNormalize FirstEntries

section Checks

/-- Distinct names that were not seen pass the check of identities. -/
theorem checkUniqueId_none (label : String) {ids seen : List String} (named : ∀ id∈ids, id≠"")
    (unique : ids.Nodup) (fresh : ∀ id∈ids, id∉seen) : checkUniqueId label seen ids=none := by
  induction ids generalizing seen with
  | nil => rfl
  | cons id rest ih =>
    have hnodup := List.nodup_cons.mp unique
    have hrest : checkUniqueId label (id::seen) rest=none := by
      refine ih (fun other hother => named other (List.mem_cons_of_mem _ hother)) hnodup.2 ?_
      intro other hother hmem
      rcases List.mem_cons.mp hmem with hsame | hseen
      · exact hnodup.1 (hsame ▸ hother)
      · exact fresh other (List.mem_cons_of_mem _ hother) hseen
    dsimp only [checkUniqueId]
    rw [if_neg (named id List.mem_cons_self),if_neg (fresh id List.mem_cons_self)]
    exact hrest

/-- Settled entries that are prepared by name pass the check of identities. -/
theorem checkUniqueId_of_settled {α : Type} {name : α → String} {finish : α → Option α}
    {entries : List α} (settled : Settled ⟨named name,name,finish⟩ [] entries) (label : String) :
    checkUniqueId label [] (entries.map name)=none := by
  refine checkUniqueId_none label ?_ settled.unique fun _ _ => List.not_mem_nil
  intro id hid
  obtain ⟨entry,hentry,hsame⟩ := List.mem_map.mp hid
  rw [← hsame]
  exact (named_eq_some.mp (settled.accepted entry hentry).1).1

/-- A provider that is kept has a command if it needs one. -/
theorem command_of_finish {settings : CommandAsrProvider}
    (h : finishAsrProvider (.commandProvider settings)=some (.commandProvider settings)) :
    settings.command≠"" := by
  intro hcommand
  have hdropped : finishAsrProvider (.commandProvider settings)=none := if_pos hcommand
  rw [hdropped] at h
  cases h

/-- Settled providers pass their check. -/
theorem checkAsrProviders_none {providers : List AsrProvider} {seen : List String}
    (settled : Settled asrProviderTreatment seen providers) :
    checkAsrProviders seen providers=none := by
  induction providers generalizing seen with
  | nil => rfl
  | cons provider rest ih =>
    obtain ⟨hprepared,hfinished⟩ := settled.accepted provider List.mem_cons_self
    have hname : asrProviderId provider≠"" := (named_eq_some.mp hprepared).1
    have hfresh : asrProviderId provider∉seen := settled.fresh provider List.mem_cons_self
    have hrest := ih settled.tail
    cases provider with
    | localProvider settings =>
      dsimp only [checkAsrProviders]
      rw [if_neg hname,if_neg hfresh]
      exact hrest
    | commandProvider settings =>
      have hcommand := command_of_finish hfinished
      dsimp only [checkAsrProviders]
      rw [if_neg hname,if_neg hfresh,if_neg hcommand]
      exact hrest

/-- Settled scenes pass their check when both builtin ones are there or
were seen. -/
theorem checkScenes_none {definitions : List Definition} {seen : List String}
    (settled : Settled sceneTreatment seen definitions)
    (hraw : kRawSceneId∈seen ∨ kRawSceneId∈sceneIds definitions)
    (hcommand : kCommandSceneId∈seen ∨ kCommandSceneId∈sceneIds definitions) :
    checkScenes seen definitions=none := by
  induction definitions generalizing seen with
  | nil =>
    have hboth : kRawSceneId∈seen ∧ kCommandSceneId∈seen :=
      ⟨hraw.resolve_right List.not_mem_nil,hcommand.resolve_right List.not_mem_nil⟩
    dsimp only [checkScenes]
    rw [if_neg (not_not.mpr hboth.1),if_neg (not_not.mpr hboth.2)]
  | cons scene rest ih =>
    obtain ⟨hprompted,hvalid⟩ :=
      prepareScene_eq_some.mp (settled.accepted scene List.mem_cons_self).1
    have hfresh : scene.id∉seen := settled.fresh scene List.mem_cons_self
    have hlater : ∀ {id : String}, id∈seen ∨ id∈sceneIds (scene::rest) →
        id∈scene.id::seen ∨ id∈sceneIds rest := by
      rintro id (hseen | hmem)
      · exact .inl (List.mem_cons_of_mem _ hseen)
      · rcases List.mem_cons.mp hmem with hsame | hrest
        · exact .inl (hsame ▸ List.mem_cons_self)
        · exact .inr hrest
    dsimp only [checkScenes]
    rw [hvalid]
    dsimp only
    rw [if_neg hfresh]
    exact ih settled.tail (hlater hraw) (hlater hcommand)

/-- A reference that is left alone names nothing or an entry. -/
theorem reference_found {reference : String} {found : Bool}
    (h : clearReference reference found=reference) : ¬(reference≠"" ∧ found=false) := by
  intro hdangling
  have hcleared : clearReference reference found="" := if_pos hdangling
  exact hdangling.1 (h.symm.trans hcleared)

/-- Normal configurations pass validation. -/
theorem validateCoreConfig_of_normal {config : CoreConfig} (normal : Normal config) :
    validateCoreConfig config=none := by
  unfold validateCoreConfig
  rw [checkUniqueId_of_settled normal.llmProviders,checkUniqueId_of_settled normal.adapters,
    checkAsrProviders_none normal.asrProviders,if_neg (reference_found normal.activeProvider),
    checkScenes_none normal.scenes (.inr normal.rawScene) (.inr normal.commandScene),
    if_neg (reference_found normal.activeScene)]
  rfl

end Checks

section Contract

/-- Identities of triggers and receivers. -/
def clientIds (config : CoreConfig) : List String :=
  config.triggers.map LlmAdapter.id++config.receivers.map LlmAdapter.id

/-- Clients of a normal configuration have distinct identities. -/
theorem clientIds_nodup {config : CoreConfig} (normal : Normal config) :
    (clientIds config).Nodup := by
  refine List.nodup_append.mpr ⟨normal.triggers.unique,normal.receivers.unique,?_⟩
  intro id htrigger other hreceiver hsame
  obtain ⟨receiver,hmem,hid⟩ := List.mem_map.mp hreceiver
  refine normal.receivers.fresh receiver hmem ?_
  rw [show adapterTreatment.name receiver=other from hid,← hsame]
  exact htrigger

/-- A finite number among those that may be infinite. -/
def finite (value : ℚ) : WithBot (WithTop ℚ) := WithBot.some (WithTop.some value)

/-- Numbers are only brought between bounds, which also holds an infinite
one there once and for all. -/
theorem clamp_extended (low : ℚ) (width : ℚ≥0) (value : WithBot (WithTop ℚ)) :
    clamp (clamp value (finite low) (finite (low+width))) (finite low) (finite (low+width))=
      clamp value (finite low) (finite (low+width)) := by
  have horder : low ≤ low+width := le_add_of_nonneg_right width.coe_nonneg
  have hfinite : finite low ≤ finite (low+width) :=
    WithBot.coe_le_coe.mpr (WithTop.coe_le_coe.mpr horder)
  exact clamp_clamp (lt_irrefl _) (lt_irrefl _) (not_lt.mpr hfinite) value

/-- Normalisation makes every configuration valid, its clients distinct,
and nothing is left to do a second time, with infinite numbers as with
finite ones. -/
theorem normalization_contract (config : CoreConfig) :
    validateCoreConfig (normalizeCoreConfig config)=none ∧
      (clientIds (normalizeCoreConfig config)).Nodup ∧
      normalizeCoreConfig (normalizeCoreConfig config)=normalizeCoreConfig config ∧
      ∀ (low : ℚ) (width : ℚ≥0) (value : WithBot (WithTop ℚ)),
        clamp (clamp value (finite low) (finite (low+width))) (finite low) (finite (low+width))=
          clamp value (finite low) (finite (low+width)) := by
  have hnormal := normal_normalizeCoreConfig config
  exact ⟨validateCoreConfig_of_normal hnormal,clientIds_nodup hnormal,
    normalizeCoreConfig_of_normal hnormal,clamp_extended⟩

end Contract

end Vinput.CoreConfigValid
