import Vinput.ConfigMigrationRules

/-!
# Runs of the migration

A migrated tree carries the version of the newest rules, so that no rule is
tried again. The plan joins both files, which decides when the file that
was up to date is written as well.
-/

namespace Vinput.ConfigMigrationRuns

open JsonTree JsonLocation JsonPattern VersionConstraint ConfigMigration ConfigMigrationRules

section Applied

variable (formatJson : Json → String)

/-- The rules a tree has not reached. -/
def appliedRules (root : Json) : List MigrationRule :=
  getRules.filter (ruleApplies (configVersion root))

/-- A rule that applies to some version applies to trees without one. -/
theorem ruleApplies_none {version : Option SemanticVersion} {rule : MigrationRule}
    (h : ruleApplies version rule=true) : ruleApplies none rule=true := by
  unfold ruleApplies at *
  split at h
  · rfl
  · cases h

/-- The rules that are applied keep their order. -/
theorem appliedRules_sublist (root : Json) : (appliedRules root).Sublist configRules := by
  have hfiltered : appliedRules root=configRules.filter (ruleApplies (configVersion root)) := by
    unfold appliedRules configRules
    rw [List.filter_filter]
    refine List.filter_congr fun rule _ => ?_
    cases hrule : ruleApplies (configVersion root) rule with
    | false => rfl
    | true => rw [ruleApplies_none hrule]; rfl
  rw [hfiltered]
  exact List.filter_sublist

theorem rewriteAt_object (change : List (String×Json) → List (String×Json)) (slots : List Slot)
    (members : List (String×Json)) :
    ∃ changed, rewriteAt change slots (.object members)=.object changed := by
  cases slots with
  | nil => exact ⟨_,rewriteAt_nil change _⟩
  | cons slot rest =>
    cases slot with
    | any => exact ⟨_,rfl⟩
    | named name => exact ⟨_,rfl⟩

theorem migrateAll_object (rules : List MigrationRule) (members : List (String×Json)) :
    ∃ changed, migrateAll rules (.object members)=.object changed := by
  induction rules generalizing members with
  | nil => exact ⟨members,rfl⟩
  | cons rule rest ih =>
    obtain ⟨changed,hchanged⟩ := rewriteAt_object (act rule (ruleKey rule)) (pattern rule) members
    obtain ⟨last,hlast⟩ := ih changed
    refine ⟨last,?_⟩
    show migrateAll rest (migrate rule (.object members))=.object last
    unfold migrate
    rw [hchanged,hlast]

/-- The report aside, a migration runs its rules and stamps the version. -/
theorem migrateConfig_node (members : List (String×Json)) :
    (migrateConfig formatJson (.object members)).node=(stampVersion (dropLegacyVersion
      (migrateAll (appliedRules (.object members)) (.object members))).node).node := by
  rw [← applyRules_node formatJson]
  rfl

/-- A migrated tree has the version of the newest rules and no legacy one. -/
theorem migrateConfig_versions (members : List (String×Json)) :
    ∃ migrated, (migrateConfig formatJson (.object members)).node=.object migrated ∧
      migrated.lookup "version"=some (.text getTargetVersionConstraint) ∧
      migrated.lookup "vinput_version"=none := by
  obtain ⟨ruled,hruled⟩ := migrateAll_object (appliedRules (.object members)) members
  have hdropped : ∃ dropped, (dropLegacyVersion (.object ruled)).node=.object dropped ∧
      dropped.lookup "vinput_version"=none := by
    dsimp only [dropLegacyVersion]
    split
    · exact ⟨_,rfl,lookup_eraseMember_self _ _⟩
    · rename_i habsent
      exact ⟨_,rfl,Option.not_isSome_iff_eq_none.mp habsent⟩
  obtain ⟨dropped,hdropped,hlegacy⟩ := hdropped
  have hstamped : ∃ stamped, (stampVersion (.object dropped)).node=.object stamped ∧
      stamped.lookup "vinput_version"=dropped.lookup "vinput_version" := by
    have hother : "vinput_version"≠"version" := by decide
    have hset := lookup_setMember_of_ne hother (.text getTargetVersionConstraint) dropped
    dsimp only [stampVersion]
    split
    · split
      · exact ⟨_,rfl,rfl⟩
      · exact ⟨_,rfl,hset⟩
    · exact ⟨_,rfl,hset⟩
  obtain ⟨stamped,hstamped,hkept⟩ := hstamped
  have hversion := find_stampVersion dropped
  rw [hstamped] at hversion
  refine ⟨stamped,?_,hversion,hkept.trans hlegacy⟩
  rw [migrateConfig_node,hruled,hdropped,hstamped]

/-- The target version has the newest rule as its lower bound. -/
theorem targetVersion_parses :
    parseConfigLowerBoundVersion getTargetVersionConstraint=some getMaxRuleVersion := by
  decide +kernel

/-- The newest rule is not newer than itself. -/
theorem newest_not_newer : ¬getMaxRuleVersion<getMaxRuleVersion := by
  rw [SemanticVersion.lt_def]
  omega

/-- No rule is newer than the newest one. -/
theorem getRules_bounded : ∀ rule∈getRules, ∀ version, parse rule.version.toList=some version →
    ¬getMaxRuleVersion<version := by
  have htable : (getRules.all fun rule => (parse rule.version.toList).all fun version =>
      decide ¬getMaxRuleVersion<version)=true := by
    decide +kernel
  intro rule hrule version hversion
  have hbounded := List.all_eq_true.mp htable rule hrule
  rw [hversion] at hbounded
  exact of_decide_eq_true hbounded

/-- A tree of the newest version or a later one is past every rule. -/
theorem appliedRules_of_reached {root : Json} {version : SemanticVersion}
    (hversion : configVersion root=some version) (h : ¬version<getMaxRuleVersion) :
    appliedRules root=[] := by
  refine List.filter_eq_nil_iff.mpr fun rule hrule happlies => ?_
  unfold ruleApplies at happlies
  rw [hversion] at happlies
  split at happlies
  · rename_i ruleVersion _ hparsed
    exact SemanticVersion.not_lt_of_not_lt h (getRules_bounded rule hrule ruleVersion hparsed)
      (of_decide_eq_true happlies)
  · cases happlies

/-- A tree that has reached a version and has no legacy one is only stamped. -/
theorem migrateConfig_of_reached {members : List (String×Json)} {version : SemanticVersion}
    (hversion : configVersion (.object members)=some version)
    (h : ¬version<getMaxRuleVersion) (hlegacy : members.lookup "vinput_version"=none) :
    migrateConfig formatJson (.object members)=stampVersion (.object members) := by
  have hrules := appliedRules_of_reached hversion h
  unfold appliedRules at hrules
  have hdropped : dropLegacyVersion (.object members)=⟨false,.object members,[]⟩ := by
    dsimp only [dropLegacyVersion]
    rw [hlegacy]
    rfl
  show (let ruled := applyRules formatJson (getRules.filter (ruleApplies (configVersion
      (.object members)))) (.object members)
    let dropped := dropLegacyVersion ruled.node
    let stamped := stampVersion dropped.node
    Walked.mk (ruled.changed || dropped.changed || stamped.changed) stamped.node
      (ruled.changes++dropped.changes++stamped.changes))=_
  rw [hrules]
  dsimp only [applyRules]
  rw [hdropped]
  rfl

/-- The version a tree states is the one it is written for. -/
theorem configVersion_of_text {members : List (String×Json)} {version : String}
    (h : members.lookup "version"=some (.text version)) :
    configVersion (.object members)=parseConfigLowerBoundVersion version := by
  dsimp only [configVersion,Json.find]
  rw [h]

/-- A tree that carries the version of the newest rules is left alone. -/
theorem migrateConfig_target {members : List (String×Json)}
    (hversion : members.lookup "version"=some (.text getTargetVersionConstraint))
    (hlegacy : members.lookup "vinput_version"=none) :
    migrateConfig formatJson (.object members)=⟨false,.object members,[]⟩ := by
  have hreached : configVersion (.object members)=some getMaxRuleVersion :=
    (configVersion_of_text hversion).trans targetVersion_parses
  rw [migrateConfig_of_reached formatJson hreached newest_not_newer hlegacy]
  dsimp only [stampVersion]
  rw [hversion]
  exact if_pos rfl

/-- Such a tree is accepted by hosts of that version. -/
theorem configSatisfies_target {members : List (String×Json)} {host : String}
    (hversion : members.lookup "version"=some (.text getTargetVersionConstraint))
    (hlegacy : members.lookup "vinput_version"=none)
    (hhost : satisfies host.toList getTargetVersionConstraint.toList=true) :
    configSatisfies host (some (.object members))=true := by
  have hlast : decide (¬getMaxRuleVersion<getMaxRuleVersion)=true := decide_eq_true newest_not_newer
  dsimp only [configSatisfies,Json.find]
  rw [hversion,hlegacy]
  dsimp only
  rw [targetVersion_parses]
  dsimp only
  rw [hlast,hhost]
  rfl

end Applied

section Contract

/-- A place that neither a rule nor a version names. -/
structure Unnamed (place : Location) : Prop where
  rules : ∀ rule∈configRules, ApartFrom (fullPattern rule) place
  version : Apart place [.key "version"]
  legacy : Apart place [.key "vinput_version"]

/-- What a migration of a tree promises. -/
structure MigrationContract (formatJson : Json → String) (root : Json) : Prop where
  /-- A migrated tree is not migrated again. -/
  again : migrateConfig formatJson (migrateConfig formatJson root).node=
    ⟨false,(migrateConfig formatJson root).node,[]⟩
  /-- The rules of a tree without version leave none of them anything to do. -/
  ungated : configVersion root=none → applyRules formatJson configRules
    (applyRules formatJson (appliedRules root) root).node=
      ⟨false,(applyRules formatJson (appliedRules root) root).node,[]⟩
  /-- Values that nothing names are kept. -/
  kept : ∀ place value, Unnamed place → nodeAt place root=some value →
    nodeAt place (migrateConfig formatJson root).node=some value
  /-- Nothing is added but what is named or renamed to. -/
  added : ∀ place, Unnamed place →
    (∀ rule∈configRules, rule.action=.rename → ApartFrom (newPattern rule) place) →
    nodeAt place (migrateConfig formatJson root).node=nodeAt place root
  /-- A renamed value is found under its new name unless that was taken. -/
  renamed : ∀ rule∈appliedRules root, rule.action=.rename → ∀ place value,
    Matches (pattern rule) place → nodeAt (place++[.key (ruleKey rule)]) root=some value →
    nodeAt (place++[.key rule.newKey]) (migrateConfig formatJson root).node=
      some ((nodeAt (place++[.key rule.newKey]) root).getD value)
  /-- The migrated tree needs no migration on hosts it is for. -/
  settled : ∀ {Node : Type} (ini : RawConfig Node) (host : String) (conf : Option Node),
    satisfies host.toList getTargetVersionConstraint.toList=true →
    conf.any (hasOutdatedIniKeys ini)=false →
    (planMigration ini formatJson host (some (migrateConfig formatJson root).node)
      conf).needed=false

variable (formatJson : Json → String) (members : List (String×Json))

/-- Outside the versions a migration does what the rules do. -/
theorem nodeAt_migrateConfig {place : Location} (hversion : Apart place [.key "version"])
    (hlegacy : Apart place [.key "vinput_version"]) :
    nodeAt place (migrateConfig formatJson (.object members)).node=
      nodeAt place (migrateAll (appliedRules (.object members)) (.object members)) := by
  rw [migrateConfig_node,nodeAt_stampVersion hversion,nodeAt_dropLegacyVersion hlegacy]

/-- The renamed members are not the versions. -/
theorem newPattern_diverges : ∀ rule∈configRules, rule.action=.rename →
    diverges (newPattern rule) [.named "version"]=true ∧
      diverges (newPattern rule) [.named "vinput_version"]=true := by
  decide +kernel

theorem matches_key (key : String) : Matches [.named key] [.key key] := .cons rfl .nil

/-- A second migration changes and reports nothing. -/
theorem migration_again : migrateConfig formatJson
    (migrateConfig formatJson (.object members)).node=
      ⟨false,(migrateConfig formatJson (.object members)).node,[]⟩ := by
  obtain ⟨migrated,hmigrated,hversion,hlegacy⟩ := migrateConfig_versions formatJson members
  rw [hmigrated]
  exact migrateConfig_target formatJson hversion hlegacy

theorem migration_ungated (root : Json) : applyRules formatJson configRules
    (applyRules formatJson configRules root).node=
      ⟨false,(applyRules formatJson configRules root).node,[]⟩ := by
  refine applyRules_of_done formatJson ?_
  rw [applyRules_node]
  exact migrateAll_done configRules_sound configRules_ordered root

/-- What a rule renames is found under its new name. -/
theorem migration_renamed {rule : MigrationRule} (hrule : rule∈appliedRules (.object members))
    (haction : rule.action=.rename) {place : Location} (hplace : Matches (pattern rule) place)
    {value : Json} (hvalue : nodeAt (place++[.key (ruleKey rule)]) (.object members)=some value) :
    nodeAt (place++[.key rule.newKey]) (migrateConfig formatJson (.object members)).node=
      some ((nodeAt (place++[.key rule.newKey]) (.object members)).getD value) := by
  have hmem := (appliedRules_sublist (.object members)).subset hrule
  have hnew : rule.newKey≠ruleKey rule := by
    have hsound := configRules_sound rule hmem
    unfold soundRule at hsound
    rw [haction] at hsound
    exact of_decide_eq_true hsound
  obtain ⟨hversion,hlegacy⟩ := newPattern_diverges rule hmem haction
  have hnext := matches_member hplace rule.newKey
  rw [nodeAt_migrateConfig formatJson members
    (apart_of_diverges hversion hnext (matches_key "version"))
    (apart_of_diverges hlegacy hnext (matches_key "vinput_version"))]
  exact migrateAll_renamed (configRules_separate.sublist (appliedRules_sublist _)) hrule haction
    hnew hplace hvalue

/-- A migrated file needs no migration. -/
theorem migration_settled {Node : Type} {ini : RawConfig Node} {host : String}
    {conf : Option Node}
    (hhost : satisfies host.toList getTargetVersionConstraint.toList=true)
    (hconf : conf.any (hasOutdatedIniKeys ini)=false) :
    (planMigration ini formatJson host (some (migrateConfig formatJson (.object members)).node)
      conf).needed=false := by
  obtain ⟨migrated,hmigrated,hversion,hlegacy⟩ := migrateConfig_versions formatJson members
  unfold planMigration
  rw [hmigrated,configSatisfies_target hversion hlegacy hhost,hconf]
  rfl

/-- Migration is idempotent and keeps what the rules do not name. -/
theorem migration_contract : MigrationContract formatJson (.object members) where
  again := migration_again formatJson members
  ungated := by
    intro hversion
    unfold appliedRules
    rw [hversion]
    exact migration_ungated formatJson (.object members)
  kept := by
    intro place value hplace hvalue
    rw [nodeAt_migrateConfig formatJson members hplace.version hplace.legacy]
    refine migrateAll_kept (fun rule hrule => ?_) hvalue
    exact hplace.rules rule ((appliedRules_sublist _).subset hrule)
  added := by
    intro place hplace hnew
    rw [nodeAt_migrateConfig formatJson members hplace.version hplace.legacy]
    refine migrateAll_same (fun rule hrule => ?_) _
    have hmem := (appliedRules_sublist _).subset hrule
    exact ⟨hplace.rules rule hmem,hnew rule hmem⟩
  renamed := by
    intro rule hrule haction place value hplace hvalue
    exact migration_renamed formatJson members hrule haction hplace hvalue
  settled := by
    intro Node ini host conf hhost hconf
    exact migration_settled formatJson members hhost hconf

end Contract

section Files

variable {Node : Type} (ini : RawConfig Node) (formatJson : Json → String)
  (readJson : String → Option Json) (formatPrettyJson : Json → String)
  (readAsIni : String → Node) (saveAsIni : Node → String) (configPath confPath : String)

/-- The file is absent or can be read. -/
def Readable : Found → Prop
  | .missing => True
  | .text _ => True
  | _ => False

/-- The items of a file that can be read. -/
def itemsOf : Found → Option Node
  | .text raw => some (readAsIni raw)
  | _ => none

/-- What becomes of `config.json` does not depend on `vinput.conf`, and what
the fast path accepts is left alone. -/
structure FilesIndependent (host : String) (dryRun : Bool) (config : Found) (writes : Writes) :
    Prop where
  same : ∀ left right, Readable left → Readable right →
    (runConfigMigration ini formatJson readJson formatPrettyJson readAsIni saveAsIni configPath
      confPath host dryRun config left writes).config=
    (runConfigMigration ini formatJson readJson formatPrettyJson readAsIni saveAsIni configPath
      confPath host dryRun config right writes).config
  untouched : ∀ raw root conf, config=.text raw → readJson raw=some root →
    configSatisfies host (some root)=true → Readable conf →
    (runConfigMigration ini formatJson readJson formatPrettyJson readAsIni saveAsIni configPath
      confPath host dryRun config conf writes).config=none

/-- The fast path accepts the file under a version that is written otherwise. -/
def AcceptedOtherwise (host : String) (config : Found) : Prop :=
  ∃ raw root, config=.text raw ∧ readJson raw=some root ∧ configSatisfies host (some root)=true ∧
    root.find "version"≠some (.text getTargetVersionConstraint)

/-- Nothing stands against writing `config.json`. -/
def WritesConfig (dryRun : Bool) (writes : Writes) : Prop :=
  dryRun=false ∧ writes.configBackup=none ∧ writes.config=none

instance (dryRun : Bool) (writes : Writes) : Decidable (WritesConfig dryRun writes) :=
  inferInstanceAs (Decidable (_ ∧ _ ∧ _))

/-- The text of `config.json` that a plan leads to. -/
def written (dryRun : Bool) (writes : Writes) (plan : Plan Node) : Option String :=
  if WritesConfig dryRun writes ∧ plan.configChanged=true then
    plan.config.map fun root => formatPrettyJson root++"\n"
  else none

/-- Nothing is written when nothing has to be or may be. -/
theorem written_none {dryRun : Bool} {writes : Writes} {plan : Plan Node}
    (h : ¬(WritesConfig dryRun writes ∧ plan.configChanged=true)) :
    written formatPrettyJson dryRun writes plan=none := if_neg h

/-- Writing the other file leaves this one alone. -/
theorem writeConf_config (plan : Plan Node) (writes : Writes) (report : MigrationReport)
    (config : Option String) : (writeConf saveAsIni confPath plan writes report config).config=
      config := by
  unfold writeConf
  split
  · split
    · rfl
    · split <;> rfl
  · rfl

theorem planMigration_needed (host : String) (config : Option Json) (conf : Option Node)
    (h : (planMigration ini formatJson host config conf).configChanged=true) :
    (planMigration ini formatJson host config conf).needed=true := by
  unfold planMigration at *
  split at h
  · cases h
  · rename_i hslow
    rw [if_neg hslow]
    dsimp only at h ⊢
    rw [h]
    simp

/-- What becomes of `config.json` when it can be read. -/
theorem run_config {raw : String} {root : Json} (hroot : readJson raw=some root)
    {conf : Found} (hconf : Readable conf) (host : String) (dryRun : Bool) (writes : Writes) :
    (runConfigMigration ini formatJson readJson formatPrettyJson readAsIni saveAsIni configPath
      confPath host dryRun (.text raw) conf writes).config=
    written formatPrettyJson dryRun writes
      (planMigration ini formatJson host (some root) (itemsOf readAsIni conf)) := by
  have hloaded : loadFiles readJson readAsIni configPath (.text raw) conf=
      .ok (some root,itemsOf readAsIni conf) := by
    unfold loadFiles
    cases conf with
    | missing => dsimp only; rw [hroot]; rfl
    | text rawConf => dsimp only; rw [hroot]; rfl
    | unresolved error => cases hconf
    | unreadable error => cases hconf
  have hneeded := planMigration_needed ini formatJson host (some root) (itemsOf readAsIni conf)
  unfold runConfigMigration
  rw [hloaded]
  dsimp only
  generalize planMigration ini formatJson host (some root) (itemsOf readAsIni conf)=plan at *
  by_cases hchanged : plan.configChanged=true
  · rw [hneeded hchanged,hchanged]
    cases dryRun with
    | true =>
      rw [written_none formatPrettyJson fun h => Bool.noConfusion h.1.1]
      rfl
    | false =>
      rw [if_neg Bool.noConfusion]
      cases hconfig : plan.config with
      | none =>
        unfold written
        rw [hconfig,Option.map_none,ite_self]
        exact writeConf_config saveAsIni confPath plan writes _ none
      | some migrated =>
        dsimp only
        split
        · rename_i error hbackup
          rw [written_none formatPrettyJson fun h =>
            Option.some_ne_none _ (hbackup.symm.trans h.1.2.1)]
        · rename_i hbackup
          split
          · rename_i error hwrite
            rw [written_none formatPrettyJson fun h =>
              Option.some_ne_none _ (hwrite.symm.trans h.1.2.2)]
          · rename_i hwrite
            unfold written
            rw [if_pos ⟨⟨rfl,hbackup,hwrite⟩,hchanged⟩,hconfig]
            exact writeConf_config saveAsIni confPath plan writes _ _
  · rw [written_none formatPrettyJson fun h => hchanged h.2,Bool.eq_false_of_not_eq_true hchanged]
    split
    · rfl
    · exact writeConf_config saveAsIni confPath plan writes _ none

/-- The fast path accepts trees that are past every rule. -/
theorem accepted_reached {host : String} {root : Json}
    (h : configSatisfies host (some root)=true) : ∃ members version lower,
      root=.object members ∧ members.lookup "version"=some (.text version) ∧
      members.lookup "vinput_version"=none ∧
      parseConfigLowerBoundVersion version=some lower ∧ ¬lower<getMaxRuleVersion := by
  unfold configSatisfies at h
  dsimp only at h
  split at h
  · rename_i version hversion hlegacy
    split at h
    · rename_i lower hlower
      cases root with
      | object members =>
        exact ⟨members,version,lower,rfl,hversion,hlegacy,hlower,
          of_decide_eq_true (Bool.and_eq_true_iff.mp h).1⟩
      | _ => cases hversion
    · cases h
  · cases h

/-- An accepted tree is changed by the slow path exactly when its version is
written otherwise. -/
theorem migrateConfig_accepted {host : String} {root : Json}
    (h : configSatisfies host (some root)=true) : (migrateConfig formatJson root).changed=true ↔
      root.find "version"≠some (.text getTargetVersionConstraint) := by
  obtain ⟨members,version,lower,rfl,hversion,hlegacy,hlower,hreached⟩ := accepted_reached h
  have hparsed : configVersion (.object members)=some lower :=
    (configVersion_of_text hversion).trans hlower
  rw [migrateConfig_of_reached formatJson hparsed hreached hlegacy]
  show _ ↔ members.lookup "version"≠_
  dsimp only [stampVersion]
  rw [hversion]
  dsimp only
  split
  · rename_i htarget
    rw [htarget]
    exact ⟨fun hchanged => Bool.noConfusion hchanged,fun hne => absurd rfl hne⟩
  · rename_i hother
    refine ⟨fun _ hsame => hother ?_,fun _ => rfl⟩
    injection hsame with htext
    injection htext

/-- The plan for a tree the fast path does not accept ignores the other file. -/
theorem planMigration_rejected {host : String} {root : Json}
    (h : configSatisfies host (some root)=false) (conf : Option Node) :
    (planMigration ini formatJson host (some root) conf).configChanged=
        (migrateConfig formatJson root).changed ∧
      (planMigration ini formatJson host (some root) conf).config=
        some (migrateConfig formatJson root).node := by
  unfold planMigration
  rw [h,Bool.false_and,if_neg Bool.noConfusion]
  exact ⟨rfl,rfl⟩

/-- The plan for a tree the fast path accepts. -/
theorem planMigration_accepted {host : String} {root : Json}
    (h : configSatisfies host (some root)=true) (conf : Option Node) :
    (planMigration ini formatJson host (some root) conf).configChanged=
      (conf.any (hasOutdatedIniKeys ini) && (migrateConfig formatJson root).changed) := by
  unfold planMigration
  rw [h]
  cases conf.any (hasOutdatedIniKeys ini) with
  | true => rfl
  | false => rfl

/-- When the other file is outdated, this one is migrated too. -/
theorem planMigration_accepted_config {host : String} {root : Json} {conf : Option Node}
    (hconf : conf.any (hasOutdatedIniKeys ini)=true) :
    (planMigration ini formatJson host (some root) conf).config=
      some (migrateConfig formatJson root).node := by
  unfold planMigration
  rw [hconf,Bool.not_true,Bool.and_false,if_neg Bool.noConfusion]
  rfl

/-- A file that cannot be read as a tree is not written. -/
theorem run_unread {config : Found} (h : ∀ raw root, config=.text raw → readJson raw≠some root)
    {conf : Found} (hconf : Readable conf) (host : String) (dryRun : Bool) (writes : Writes) :
    (runConfigMigration ini formatJson readJson formatPrettyJson readAsIni saveAsIni configPath
      confPath host dryRun config conf writes).config=none := by
  have hplan : ∀ items, (planMigration ini formatJson host none items).configChanged=false := by
    intro items
    unfold planMigration
    split <;> rfl
  unfold runConfigMigration
  cases config with
  | missing =>
    cases conf with
    | missing => rfl
    | text rawConf =>
      dsimp only [loadFiles]
      rw [hplan]
      split
      · rfl
      · exact writeConf_config saveAsIni confPath _ writes _ none
    | unresolved error => cases hconf
    | unreadable error => cases hconf
  | text raw =>
    have hraw : readJson raw=none := Option.eq_none_iff_forall_ne_some.mpr fun root =>
      h raw root rfl
    cases conf with
    | missing => dsimp only [loadFiles]; rw [hraw]
    | text rawConf => dsimp only [loadFiles]; rw [hraw]
    | unresolved error => cases hconf
    | unreadable error => cases hconf
  | unresolved error => rfl
  | unreadable error =>
    cases conf with
    | missing => rfl
    | text rawConf => rfl
    | unresolved error => cases hconf
    | unreadable error => cases hconf

/-- What becomes of an accepted tree while its version is the written one. -/
theorem run_accepted {raw : String} {root : Json} (hroot : readJson raw=some root)
    {host : String} (haccepted : configSatisfies host (some root)=true) {dryRun : Bool}
    {writes : Writes} (h : ¬(WritesConfig dryRun writes ∧
      root.find "version"≠some (.text getTargetVersionConstraint)))
    {conf : Found} (hconf : Readable conf) :
    (runConfigMigration ini formatJson readJson formatPrettyJson readAsIni saveAsIni configPath
      confPath host dryRun (.text raw) conf writes).config=none := by
  rw [run_config ini formatJson readJson formatPrettyJson readAsIni saveAsIni configPath confPath hroot
    hconf]
  refine written_none formatPrettyJson fun hwritten => h ⟨hwritten.1,?_⟩
  rw [planMigration_accepted ini formatJson haccepted] at hwritten
  exact (migrateConfig_accepted formatJson haccepted).mp (Bool.and_eq_true_iff.mp hwritten.2).2

/-- `config.json` does not depend on `vinput.conf` unless an accepted version
is written otherwise. -/
theorem files_independent_iff (hini : ∃ raw, hasOutdatedIniKeys ini (readAsIni raw)=true)
    (host : String) (dryRun : Bool) (config : Found) (writes : Writes) :
    FilesIndependent ini formatJson readJson formatPrettyJson readAsIni saveAsIni configPath confPath
      host dryRun config writes ↔
    ¬(WritesConfig dryRun writes ∧ AcceptedOtherwise readJson host config) := by
  constructor
  · rintro hindependent ⟨hwrites,raw,root,rfl,hroot,haccepted,hversion⟩
    obtain ⟨rawConf,houtdated⟩ := hini
    have huntouched := hindependent.untouched raw root (.text rawConf) rfl hroot haccepted trivial
    have hitems : (itemsOf readAsIni (.text rawConf)).any (hasOutdatedIniKeys ini)=true := houtdated
    have hreadable : Readable (.text rawConf) := trivial
    rw [run_config ini formatJson readJson formatPrettyJson readAsIni saveAsIni configPath confPath
      hroot hreadable] at huntouched
    unfold written at huntouched
    rw [planMigration_accepted ini formatJson haccepted,hitems,
      (migrateConfig_accepted formatJson haccepted).mpr hversion,if_pos ⟨hwrites,rfl⟩,
      planMigration_accepted_config ini formatJson hitems] at huntouched
    cases huntouched
  · intro hcondition
    have haccepted : ∀ raw root conf, config=.text raw → readJson raw=some root →
        configSatisfies host (some root)=true → Readable conf →
        (runConfigMigration ini formatJson readJson formatPrettyJson readAsIni saveAsIni configPath
          confPath host dryRun config conf writes).config=none := by
      rintro raw root conf rfl hroot haccepted hconf
      refine run_accepted ini formatJson readJson formatPrettyJson readAsIni saveAsIni configPath
        confPath hroot haccepted ?_ hconf
      rintro ⟨hwrites,hversion⟩
      exact hcondition ⟨hwrites,raw,root,rfl,hroot,haccepted,hversion⟩
    refine ⟨?_,haccepted⟩
    intro left right hleft hright
    by_cases hread : ∃ raw root, config=.text raw ∧ readJson raw=some root
    · obtain ⟨raw,root,rfl,hroot⟩ := hread
      by_cases hfast : configSatisfies host (some root)=true
      · rw [haccepted raw root left rfl hroot hfast hleft,
          haccepted raw root right rfl hroot hfast hright]
      · have hslow := planMigration_rejected ini formatJson (Bool.eq_false_of_not_eq_true hfast)
        rw [run_config ini formatJson readJson formatPrettyJson readAsIni saveAsIni configPath
          confPath hroot hleft,run_config ini formatJson readJson formatPrettyJson readAsIni saveAsIni
          configPath confPath hroot hright]
        unfold written
        rw [(hslow _).1,(hslow _).2,(hslow _).1,(hslow _).2]
    · have hunread : ∀ raw root, config=.text raw → readJson raw≠some root :=
        fun raw root hconfig hroot => hread ⟨raw,root,hconfig,hroot⟩
      rw [run_unread ini formatJson readJson formatPrettyJson readAsIni saveAsIni configPath confPath
        hunread hleft,run_unread ini formatJson readJson formatPrettyJson readAsIni saveAsIni
        configPath confPath hunread hright]

/-- A reader that knows one text of `config.json`. -/
def readVersioned (raw : String) : Option Json :=
  if raw="\x7b\"version\":\">=2.4.1\"\x7d" then some (.object [("version",.text ">=2.4.1")])
  else none

/-- A writer for trees that hold a version only. -/
def formatVersioned : Json → String
  | .object [("version",.text version)] => "\x7b\n  \"version\": \""++version++"\"\n\x7d"
  | _ => ""

/-- A reader that knows one text of `vinput.conf`. -/
def readDelay (raw : String) : List (List String×String) :=
  if raw="HoldActivationDelay=200\n" then [(["HoldActivationDelay"],"200")] else []

/-- An accepted file is written for an earlier version than its own because
`vinput.conf` is outdated. -/
theorem accepted_version_lowered :
    (runConfigMigration flatItems formatVersioned readVersioned formatVersioned readDelay (fun _ => "")
      "config.json" "vinput.conf" "2.4.2" false (.text "\x7b\"version\":\">=2.4.1\"\x7d") .missing
      {}).config=none ∧
    (runConfigMigration flatItems formatVersioned readVersioned formatVersioned readDelay (fun _ => "")
      "config.json" "vinput.conf" "2.4.2" false (.text "\x7b\"version\":\">=2.4.1\"\x7d")
      (.text "HoldActivationDelay=200\n") {}).config=
        some "\x7b\n  \"version\": \">=2.4.0\"\n\x7d\n" ∧
    ¬FilesIndependent flatItems formatVersioned readVersioned formatVersioned readDelay (fun _ => "")
      "config.json" "vinput.conf" "2.4.2" false (.text "\x7b\"version\":\">=2.4.1\"\x7d") {} := by
  have hmissing : (runConfigMigration flatItems formatVersioned readVersioned formatVersioned readDelay
      (fun _ => "") "config.json" "vinput.conf" "2.4.2" false
      (.text "\x7b\"version\":\">=2.4.1\"\x7d") .missing {}).config=none := by
    decide +kernel
  have hdelay : (runConfigMigration flatItems formatVersioned readVersioned formatVersioned readDelay
      (fun _ => "") "config.json" "vinput.conf" "2.4.2" false
      (.text "\x7b\"version\":\">=2.4.1\"\x7d") (.text "HoldActivationDelay=200\n") {}).config=
        some "\x7b\n  \"version\": \">=2.4.0\"\n\x7d\n" := by
    decide +kernel
  refine ⟨hmissing,hdelay,fun h => ?_⟩
  have hsame := h.same .missing (.text "HoldActivationDelay=200\n") trivial trivial
  rw [hmissing,hdelay] at hsame
  cases hsame

/-- A dry run leaves an accepted file alone. -/
theorem dry_run_independent :
    FilesIndependent flatItems formatVersioned readVersioned formatVersioned readDelay (fun _ => "")
      "config.json" "vinput.conf" "2.4.2" true (.text "\x7b\"version\":\">=2.4.1\"\x7d") {} :=
  (files_independent_iff flatItems formatVersioned readVersioned formatVersioned readDelay (fun _ => "")
    "config.json" "vinput.conf" ⟨"HoldActivationDelay=200\n",by decide⟩ "2.4.2" true _ {}).mpr
    fun h => Bool.noConfusion h.1.1

end Files

end Vinput.ConfigMigrationRuns
